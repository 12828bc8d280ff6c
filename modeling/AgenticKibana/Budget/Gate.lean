import AgenticKibana.Library.Doubles
import AgenticKibana.Library.Machine

/-!
# The budget gate

The gate reads the ledger twice before a completion and compares what was spent, and the estimate,
with the ceilings; the cost is recorded when the provider has answered.  Nothing is reserved in
between, and the summaries of the ledger are rounded.
-/

namespace AgenticKibana.Budget

open AgenticKibana.Library List

/-- Times are milliseconds since the epoch. -/
structure UsageRow where
  ts : Int
  /-- not of a surface that the budget excludes -/
  counted : Bool
  cost : ℚ

def dayMillis : Int := 86400000

def dayStart (now : Int) : Int := now / dayMillis * dayMillis

def monthStart (now : Int) : Int := now - 30 * dayMillis

def costSince (start : Int) (p : UsageRow → Bool) (rows : List UsageRow) : ℚ :=
  ((rows.filter fun row => start ≤ row.ts ∧ p row).map UsageRow.cost).sum

def spentSince (start : Int) (rows : List UsageRow) : ℚ := costSince start UsageRow.counted rows

/-- A ceiling that is not positive is no limit. -/
structure BudgetConfig where
  daily : ℚ
  monthly : ℚ

/-- `round(x, 6)`. -/
def round6 (x : ℚ) : ℚ := Doubles.roundHalfEven (x * 1000000) / 1000000

section Spend

variable (rows : List UsageRow)

/-- `today_cost` without `today_by_surface` of the excluded ones. -/
def dailySpend (now : Int) : ℚ :=
  let daily := round6 (costSince (dayStart now) (fun _ => true) rows)
  let excluded := round6 (costSince (dayStart now) (fun row => !row.counted) rows)
  if 0 < daily then max 0 (daily - min daily excluded) else daily

/-- `listed` tells whether the excluded surfaces are among the ten that the summary lists. -/
def monthlySpend (listed : List UsageRow → Bool) (now : Int) : ℚ :=
  let total := round6 (costSince (monthStart now) (fun _ => true) rows)
  let excluded := round6 (costSince (monthStart now) (fun row => !row.counted) rows)
  max 0 (total - if listed rows then excluded else 0)

end Spend

/-- `_decide`, where `on_exceed` is `block`. -/
def blocks (config : BudgetConfig) (daily monthly estimate : ℚ) : Bool :=
  (0 < config.daily && config.daily < daily + estimate) ||
    (0 < config.monthly && config.monthly < monthly + estimate)

/-! ### Completions -/

inductive CallStage where
  | readDay (estimate : ℚ)
  | readMonth (estimate daily : ℚ)
  | inFlight (estimate : ℚ)
  | ended

structure BudgetWorld where
  now : Int
  rows : List UsageRow
  calls : Nat → Option CallStage

inductive BudgetMove where
  | begin (τ : Nat) (estimate : ℚ)
  | read (τ : Nat)
  /-- the provider has answered -/
  | record (τ : Nat) (cost : ℚ)
  /-- it is not asked, or no row is written -/
  | giveUp (τ : Nat)
  /-- a row of an excluded surface -/
  | exempt (cost : ℚ)
  | clock (millis : Nat)

def moveTo (w : BudgetWorld) (τ : Nat) (stage : CallStage) : BudgetWorld :=
  { w with calls := Function.update w.calls τ (some stage) }

def budgetStep (listed : List UsageRow → Bool) (config : BudgetConfig) (w : BudgetWorld) :
    BudgetMove → Option BudgetWorld
  | .begin τ estimate =>
    if (w.calls τ).isNone then some (moveTo w τ (.readDay estimate)) else none
  | .read τ =>
    match w.calls τ with
    | some (.readDay estimate) =>
      some (moveTo w τ (.readMonth estimate (dailySpend w.rows w.now)))
    | some (.readMonth estimate daily) =>
      if blocks config daily (monthlySpend w.rows listed w.now) estimate then
        some (moveTo w τ .ended)
      else some (moveTo w τ (.inFlight estimate))
    | _ => none
  | .record τ cost =>
    match w.calls τ with
    | some (.inFlight estimate) =>
      if 0 ≤ cost ∧ cost ≤ estimate then
        some (moveTo { w with rows := w.rows ++ [⟨w.now, true, cost⟩] } τ .ended)
      else none
    | _ => none
  | .giveUp τ =>
    match w.calls τ with
    | some (.inFlight _) => some (moveTo w τ .ended)
    | _ => none
  | .exempt cost =>
    if 0 ≤ cost then some { w with rows := w.rows ++ [⟨w.now, false, cost⟩] } else none
  | .clock millis => some { w with now := w.now + millis }

def Within (slack cap spent : ℚ) : Prop := 0 < cap → spent ≤ cap + slack

def budgetMachine (listed : List UsageRow → Bool) (config : BudgetConfig) :
    Machine BudgetWorld BudgetMove where
  start w := (∀ τ, w.calls τ = none) ∧ (∀ row ∈ w.rows, 0 ≤ row.cost) ∧
    Within 0 config.daily (spentSince (dayStart w.now) w.rows) ∧
    Within 0 config.monthly (spentSince (monthStart w.now) w.rows)
  step := budgetStep listed config

def Active (w : BudgetWorld) (τ : Nat) : Prop :=
  (∃ estimate daily, w.calls τ = some (.readMonth estimate daily)) ∨
    ∃ estimate, w.calls τ = some (.inFlight estimate)

def Alone (w : BudgetWorld) : BudgetMove → Prop
  | .read τ => ∀ τ', Active w τ' → τ' = τ
  | _ => True

/-! ### Sums -/

variable {listed : List UsageRow → Bool} {config : BudgetConfig} {w w' : BudgetWorld}
  {move : BudgetMove} {rows : List UsageRow} {p : UsageRow → Bool}

theorem costSince_append (start : Int) (row : UsageRow) :
    costSince start p (rows ++ [row]) =
      costSince start p rows + if start ≤ row.ts ∧ p row then row.cost else 0 := by
  unfold costSince
  rw [filter_append, map_append, sum_append]
  by_cases h : start ≤ row.ts ∧ p row = true <;> simp [h]

theorem costSince_split (start : Int) : costSince start (fun _ => true) rows =
    spentSince start rows + costSince start (fun row => !row.counted) rows := by
  unfold spentSince
  induction rows using List.reverseRecOn with
  | nil => simp [costSince]
  | append_singleton rows row ih =>
    rw [costSince_append, costSince_append, costSince_append, ih]
    cases row.counted <;> simp <;> ring

theorem costSince_nonneg (hcost : ∀ row ∈ rows, 0 ≤ row.cost) (start : Int) :
    0 ≤ costSince start p rows := by
  refine sum_nonneg fun c hc => ?_
  obtain ⟨row, hrow, rfl⟩ := List.mem_map.mp hc
  exact hcost row (mem_of_mem_filter hrow)

theorem costSince_anti (hcost : ∀ row ∈ rows, 0 ≤ row.cost) {a b : Int} (h : a ≤ b) :
    costSince b p rows ≤ costSince a p rows := by
  induction rows using List.reverseRecOn with
  | nil => simp [costSince]
  | append_singleton rows row ih =>
    have hrow : 0 ≤ row.cost := hcost row (by simp)
    have hrest := ih fun r hr => hcost r (mem_append_left _ hr)
    rw [costSince_append, costSince_append]
    by_cases hb : b ≤ row.ts ∧ p row = true
    · rw [if_pos hb, if_pos ⟨h.trans hb.1, hb.2⟩]
      linarith
    · rw [if_neg hb]
      split <;> linarith

theorem dayStart_mono {a b : Int} (h : a ≤ b) : dayStart a ≤ dayStart b :=
  mul_le_mul_of_nonneg_right (Int.ediv_le_ediv (by decide) h) (by decide)

theorem round6_near (x : ℚ) : x - 1 / 2000000 ≤ round6 x ∧ round6 x ≤ x + 1 / 2000000 := by
  obtain ⟨hlow, hhigh⟩ := abs_le.mp (Doubles.abs_roundHalfEven_sub_le (x * 1000000))
  unfold round6
  constructor <;> linarith

/-- A millionth, which both roundings together may hide. -/
def slack : ℚ := 1 / 1000000

theorem spent_le_rounded (hcost : ∀ row ∈ rows, 0 ≤ row.cost) (start : Int) :
    spentSince start rows + max 0 (round6 (costSince start (fun row => !row.counted) rows)) ≤
      round6 (costSince start (fun _ => true) rows) + slack := by
  have hall := round6_near (costSince start (fun _ => true) rows)
  have hout := round6_near (costSince start (fun row => !row.counted) rows)
  have hpos := costSince_nonneg (p := fun row => !row.counted) hcost start
  have hsplit : costSince start (fun _ => true) rows =
      spentSince start rows + costSince start (fun row => !row.counted) rows :=
    costSince_split start
  unfold slack
  rcases max_choice 0 (round6 (costSince start (fun row => !row.counted) rows)) with hmax | hmax
  all_goals
    rw [hmax]
    linarith

theorem spent_le_daily (hcost : ∀ row ∈ rows, 0 ≤ row.cost) (now : Int) :
    spentSince (dayStart now) rows ≤ dailySpend rows now + slack := by
  have h := spent_le_rounded hcost (dayStart now)
  have hzero := le_max_left 0 (round6 (costSince (dayStart now) (fun row => !row.counted) rows))
  have hout := le_max_right 0 (round6 (costSince (dayStart now) (fun row => !row.counted) rows))
  unfold dailySpend
  dsimp only
  split
  · have hmin := min_le_right (round6 (costSince (dayStart now) (fun _ => true) rows))
      (round6 (costSince (dayStart now) (fun row => !row.counted) rows))
    refine (?_ : _ ≤ _).trans (add_le_add_left (le_max_right _ _) _)
    linarith
  · linarith

theorem spent_le_monthly (hcost : ∀ row ∈ rows, 0 ≤ row.cost) (now : Int) :
    spentSince (monthStart now) rows ≤ monthlySpend rows listed now + slack := by
  have h := spent_le_rounded hcost (monthStart now)
  have hzero := le_max_left 0 (round6 (costSince (monthStart now) (fun row => !row.counted) rows))
  have hout := le_max_right 0 (round6 (costSince (monthStart now) (fun row => !row.counted) rows))
  unfold monthlySpend
  dsimp only
  refine (?_ : _ ≤ _).trans (add_le_add_left (le_max_right _ _) _)
  split <;> linarith

/-! ### The invariant -/

structure Bounded (config : BudgetConfig) (w : BudgetWorld) : Prop where
  costs : ∀ row ∈ w.rows, 0 ≤ row.cost
  daily : Within slack config.daily (spentSince (dayStart w.now) w.rows)
  monthly : Within slack config.monthly (spentSince (monthStart w.now) w.rows)
  read : ∀ τ estimate spent, w.calls τ = some (.readMonth estimate spent) →
    spentSince (dayStart w.now) w.rows ≤ spent + slack
  flight : ∀ τ estimate, w.calls τ = some (.inFlight estimate) →
    Within slack config.daily (spentSince (dayStart w.now) w.rows + estimate) ∧
      Within slack config.monthly (spentSince (monthStart w.now) w.rows + estimate)
  alone : ∀ τ τ', Active w τ → Active w τ' → τ = τ'

/-- Steps after which no more was spent, and that move no call. -/
theorem Bounded.less (h : Bounded config w) (hcosts : ∀ row ∈ w'.rows, 0 ≤ row.cost)
    (hcalls : w'.calls = w.calls)
    (hday : spentSince (dayStart w'.now) w'.rows ≤ spentSince (dayStart w.now) w.rows)
    (hmonth : spentSince (monthStart w'.now) w'.rows ≤ spentSince (monthStart w.now) w.rows) :
    Bounded config w' := by
  refine ⟨hcosts, fun hcap => hday.trans (h.daily hcap), fun hcap => hmonth.trans (h.monthly hcap),
    fun τ e d hτ => hday.trans (h.read τ e d (hcalls ▸ hτ)), fun τ e hτ => ?_, ?_⟩
  · obtain ⟨hd, hm⟩ := h.flight τ e (hcalls ▸ hτ)
    exact ⟨fun hcap => (by linarith [hd hcap]), fun hcap => (by linarith [hm hcap])⟩
  · unfold Active
    rw [hcalls]
    exact h.alone

variable {τ : Nat} {stage : CallStage}

theorem calls_moveTo {τ' : Nat} {s : CallStage} (h : (moveTo w τ stage).calls τ' = some s) :
    (τ' = τ ∧ stage = s) ∨ w.calls τ' = some s := by
  dsimp only [moveTo] at h
  by_cases heq : τ' = τ
  · subst heq
    rw [Function.update_self] at h
    exact .inl ⟨rfl, Option.some.inj h⟩
  · rw [Function.update_of_ne heq] at h
    exact .inr h

theorem Bounded.moveTo (h : Bounded config w)
    (hread : ∀ estimate spent, stage = .readMonth estimate spent →
      spentSince (dayStart w.now) w.rows ≤ spent + slack)
    (hflight : ∀ estimate, stage = .inFlight estimate →
      Within slack config.daily (spentSince (dayStart w.now) w.rows + estimate) ∧
        Within slack config.monthly (spentSince (monthStart w.now) w.rows + estimate))
    (halone : Active (moveTo w τ stage) τ → ∀ τ', Active w τ' → τ' = τ) :
    Bounded config (moveTo w τ stage) := by
  have hactive : ∀ τ', Active (Budget.moveTo w τ stage) τ' → τ' = τ ∨ Active w τ' := by
    rintro τ' (⟨e, d, hτ'⟩ | ⟨e, hτ'⟩)
    · exact (calls_moveTo hτ').imp (·.1) fun hold => .inl ⟨e, d, hold⟩
    · exact (calls_moveTo hτ').imp (·.1) fun hold => .inr ⟨e, hold⟩
  refine ⟨h.costs, h.daily, h.monthly, fun τ' e d hτ' => ?_, fun τ' e hτ' => ?_,
    fun τ1 τ2 h1 h2 => ?_⟩
  · rcases calls_moveTo hτ' with ⟨-, hstage⟩ | hold
    · exact hread e d hstage
    · exact h.read τ' e d hold
  · rcases calls_moveTo hτ' with ⟨-, hstage⟩ | hold
    · exact hflight e hstage
    · exact h.flight τ' e hold
  · rcases hactive τ1 h1 with rfl | hold1
    · rcases hactive τ2 h2 with rfl | hold2
      · rfl
      · exact (halone h1 τ2 hold2).symm
    · rcases hactive τ2 h2 with rfl | hold2
      · exact halone h2 τ1 hold1
      · exact h.alone τ1 τ2 hold1 hold2

theorem Bounded.record (h : Bounded config w) {estimate cost : ℚ}
    (hτ : w.calls τ = some (.inFlight estimate)) (hcost : 0 ≤ cost) (hle : cost ≤ estimate) :
    Bounded config (Budget.moveTo { w with rows := w.rows ++ [⟨w.now, true, cost⟩] } τ .ended) := by
  have hspent : ∀ start, spentSince start (w.rows ++ [⟨w.now, true, cost⟩]) ≤
      spentSince start w.rows + estimate := by
    intro start
    unfold spentSince
    rw [costSince_append]
    split <;> linarith
  have hidle : ∀ τ', ¬ Active (Budget.moveTo
      { w with rows := w.rows ++ [⟨w.now, true, cost⟩] } τ .ended) τ' := by
    have hown : ∀ τ', Active w τ' → τ' = τ := fun τ' h' => h.alone τ' τ h' (.inr ⟨_, hτ⟩)
    rintro τ' (⟨e, d, hτ'⟩ | ⟨e, hτ'⟩)
    all_goals
      rcases calls_moveTo hτ' with ⟨-, hstage⟩ | hold
      · cases hstage
    · obtain rfl := hown τ' (.inl ⟨e, d, hold⟩)
      cases hτ.symm.trans hold
    · obtain rfl := hown τ' (.inr ⟨e, hold⟩)
      dsimp only [Budget.moveTo] at hτ'
      rw [Function.update_self] at hτ'
      cases hτ'
  obtain ⟨hday, hmonth⟩ := h.flight τ estimate hτ
  refine ⟨?_, fun hcap => (hspent _).trans (hday hcap), fun hcap => (hspent _).trans (hmonth hcap),
    fun τ' e d hτ' => absurd (.inl ⟨e, d, hτ'⟩) (hidle τ'),
    fun τ' e hτ' => absurd (.inr ⟨e, hτ'⟩) (hidle τ'),
    fun τ1 _ h1 => absurd h1 (hidle τ1)⟩
  exact forall_mem_append.mpr ⟨h.costs, by simpa using hcost⟩

theorem Bounded.step (h : Bounded config w) (halone : Alone w move)
    (hstep : budgetStep listed config w move = some w') : Bounded config w' := by
  cases move with
  | begin τ estimate =>
    simp only [budgetStep, Option.ite_none_right_eq_some, Option.some.injEq] at hstep
    obtain ⟨-, rfl⟩ := hstep
    exact h.moveTo (by simp) (by simp) (by simp [Active, Budget.moveTo])
  | read τ =>
    have hown : ∀ τ', Active w τ' → τ' = τ := halone
    cases hτ : w.calls τ with
    | none => simp [budgetStep, hτ] at hstep
    | some stage =>
      cases stage with
      | readDay estimate =>
        simp only [budgetStep, hτ, Option.some.injEq] at hstep
        subst hstep
        refine h.moveTo ?_ (by simp) fun _ => hown
        rintro e d heq
        obtain ⟨-, rfl⟩ := CallStage.readMonth.inj heq
        exact spent_le_daily h.costs w.now
      | readMonth estimate spent =>
        simp only [budgetStep, hτ] at hstep
        cases hblocks : blocks config spent (monthlySpend w.rows listed w.now) estimate with
        | true =>
          simp only [hblocks, if_true, Option.some.injEq] at hstep
          subst hstep
          exact h.moveTo (by simp) (by simp) (by simp [Active, Budget.moveTo])
        | false =>
          simp only [hblocks, Bool.false_eq_true, if_false, Option.some.injEq] at hstep
          subst hstep
          refine h.moveTo (by simp) ?_ fun _ => hown
          rintro e heq
          obtain rfl := CallStage.inFlight.inj heq
          simp only [blocks, Bool.or_eq_false_iff, Bool.and_eq_false_imp, decide_eq_true_eq,
            decide_eq_false_iff_not, not_lt] at hblocks
          have hday := h.read τ estimate spent hτ
          have hmonth : _ ≤ monthlySpend w.rows listed w.now + slack :=
            spent_le_monthly h.costs w.now
          exact ⟨fun hcap => (by linarith [hblocks.1 hcap]),
            fun hcap => (by linarith [hblocks.2 hcap])⟩
      | inFlight _ | ended => simp [budgetStep, hτ] at hstep
  | record τ cost =>
    cases hτ : w.calls τ with
    | none => simp [budgetStep, hτ] at hstep
    | some stage =>
      cases stage with
      | inFlight estimate =>
        simp only [budgetStep, hτ, Option.ite_none_right_eq_some, Option.some.injEq] at hstep
        obtain ⟨⟨hcost, hle⟩, rfl⟩ := hstep
        exact h.record hτ hcost hle
      | readDay _ | readMonth _ _ | ended => simp [budgetStep, hτ] at hstep
  | giveUp τ =>
    cases hτ : w.calls τ with
    | none => simp [budgetStep, hτ] at hstep
    | some stage =>
      cases stage with
      | inFlight _ =>
        simp only [budgetStep, hτ, Option.some.injEq] at hstep
        subst hstep
        exact h.moveTo (by simp) (by simp) (by simp [Active, Budget.moveTo])
      | readDay _ | readMonth _ _ | ended => simp [budgetStep, hτ] at hstep
  | exempt cost =>
    simp only [budgetStep, Option.ite_none_right_eq_some, Option.some.injEq] at hstep
    obtain ⟨hcost, rfl⟩ := hstep
    refine h.less (forall_mem_append.mpr ⟨h.costs, by simpa using hcost⟩) rfl ?_ ?_
    all_goals
      dsimp only [spentSince]
      rw [costSince_append]
      simp
  | clock millis =>
    simp only [budgetStep, Option.some.injEq] at hstep
    subst hstep
    have hlater : w.now ≤ w.now + millis := by omega
    refine h.less h.costs rfl (costSince_anti h.costs (dayStart_mono hlater))
      (costSince_anti h.costs ?_)
    unfold monthStart
    dsimp only
    omega

/-- **While completions do not overlap, neither ceiling is exceeded by more than the roundings of a
summary.** -/
theorem budget_kept (h : (budgetMachine listed config).Reaches Alone w) :
    Within slack config.daily (spentSince (dayStart w.now) w.rows) ∧
      Within slack config.monthly (spentSince (monthStart w.now) w.rows) := by
  have hbounded : Bounded config w := by
    refine Machine.invariant ?_ (fun w move w' h hP hstep => h.step hP hstep) h
    rintro w ⟨hnone, hcosts, hday, hmonth⟩
    have hslack : (0 : ℚ) ≤ slack := by norm_num [slack]
    refine ⟨hcosts, fun hcap => ?_, fun hcap => ?_, by simp [hnone], by simp [hnone],
      by simp [Active, hnone]⟩
    · linarith [hday hcap]
    · linarith [hmonth hcap]
  exact ⟨hbounded.daily, hbounded.monthly⟩

/-! ### Completions that overlap -/

def freshLedger : BudgetWorld := ⟨0, [], fun _ => none⟩

def oneDollar : BudgetConfig := ⟨1, 30⟩

theorem fresh_starts : (budgetMachine (fun _ => true) oneDollar).start freshLedger :=
  ⟨fun _ => rfl, by simp [freshLedger], fun _ => (by simp [spentSince, costSince, freshLedger,
    oneDollar]), fun _ => (by simp [spentSince, costSince, freshLedger, oneDollar])⟩

def overlapping : List BudgetMove :=
  [.begin 0 (3 / 5), .begin 1 (3 / 5), .read 0, .read 1, .read 0, .read 1, .record 0 (3 / 5),
    .record 1 (3 / 5)]

/-- Less than the summaries show. -/
def dust : UsageRow := ⟨0, true, 1 / 2500000⟩

theorem round6_dust : round6 2500000⁻¹ = 0 := by
  have hfloor : ⌊(2500000 : ℚ)⁻¹ * 1000000⌋ = 0 := by
    rw [Int.floor_eq_zero_iff]
    norm_num
  unfold round6 Doubles.roundHalfEven
  rw [hfloor]
  norm_num

theorem alone_of_only (h : ∀ τ', τ' ≠ τ → w.calls τ' = none) : Alone w (.read τ) := by
  rintro τ' (⟨_, _, hτ'⟩ | ⟨_, hτ'⟩)
  all_goals
    by_contra hne
    rw [h τ' hne] at hτ'
    cases hτ'

theorem round6_zero : round6 0 = 0 := by
  simp [round6, Doubles.roundHalfEven]

theorem one_completion : ∃ w, (budgetMachine (fun _ => true) oneDollar).Reaches Alone w ∧
    w.now = 0 ∧ w.rows = [dust, ⟨0, true, 1⟩] := by
  have hday : dailySpend [dust] 0 = 0 := by
    simp [dailySpend, costSince, dust, dayStart, round6_dust]
  have hmonth : monthlySpend [dust] (fun _ => true) 0 = 0 := by
    simp [monthlySpend, costSince, dust, monthStart, dayMillis, round6_zero, round6_dust]
  have hpass : blocks oneDollar 0 0 1 = false := by norm_num [blocks, oneDollar]
  let w0 : BudgetWorld := ⟨0, [dust], fun _ => none⟩
  let w1 := moveTo w0 0 (.readDay 1)
  let w2 := moveTo w1 0 (.readMonth 1 0)
  let w3 := moveTo w2 0 (.inFlight 1)
  have hstart : (budgetMachine (fun _ => true) oneDollar).start w0 :=
    ⟨fun _ => rfl, by simp [w0, dust], fun _ => (by
      norm_num [w0, spentSince, costSince, dust, dayStart, oneDollar]), fun _ => (by
      norm_num [w0, spentSince, costSince, dust, monthStart, dayMillis, oneDollar])⟩
  have h1 : (budgetMachine (fun _ => true) oneDollar).Reaches Alone w1 :=
    (Machine.Reaches.start hstart).step (e := BudgetMove.begin 0 1) trivial rfl
  have h2 : (budgetMachine (fun _ => true) oneDollar).Reaches Alone w2 := by
    refine h1.step (e := .read 0) (alone_of_only fun τ' hne => ?_) ?_
    · simp [w1, w0, moveTo, hne]
    · simp [w2, w1, w0, moveTo, budgetMachine, budgetStep, hday]
  have h3 : (budgetMachine (fun _ => true) oneDollar).Reaches Alone w3 := by
    refine h2.step (e := .read 0) (alone_of_only fun τ' hne => ?_) ?_
    · simp [w2, w1, w0, moveTo, hne]
    · simp [w3, w2, w1, w0, moveTo, budgetMachine, budgetStep, hmonth, hpass]
  refine ⟨_, h3.step (e := BudgetMove.record 0 1) trivial
    (t := moveTo { w3 with rows := [dust, ⟨0, true, 1⟩] } 0 .ended) ?_, rfl, rfl⟩
  simp [w3, w2, w1, w0, moveTo, budgetMachine, budgetStep]

theorem one_completion_kept : ∃ w : BudgetWorld, w.rows = [dust, ⟨0, true, 1⟩] ∧
    Within slack oneDollar.daily (spentSince (dayStart w.now) w.rows) ∧
      Within slack oneDollar.monthly (spentSince (monthStart w.now) w.rows) := by
  obtain ⟨w, hreaches, -, hrows⟩ := one_completion
  exact ⟨w, hrows, budget_kept hreaches⟩

/-- Two calls that both read the ledger before either records its cost, and one call after a cost
that the summaries do not show. -/
theorem completions_overspend :
    (∃ w, (budgetMachine (fun _ => true) oneDollar).Reaches Machine.anyStep w ∧
      ¬ Within 0 oneDollar.daily (spentSince (dayStart w.now) w.rows)) ∧
    ∃ w, (budgetMachine (fun _ => true) oneDollar).Reaches Alone w ∧
      ¬ Within 0 oneDollar.daily (spentSince (dayStart w.now) w.rows) := by
  constructor
  · have hday : dailySpend [] 0 = 0 := by simp [dailySpend, costSince, round6_zero]
    have hmonth : monthlySpend [] (fun _ => true) 0 = 0 := by
      simp [monthlySpend, costSince, round6_zero]
    have hpass : blocks oneDollar 0 0 (3 / 5) = false := by norm_num [blocks, oneDollar]
    have hcost : (0 : ℚ) ≤ 3 / 5 := by norm_num
    have hrun : ((budgetMachine (fun _ => true) oneDollar).run freshLedger overlapping).map
        (fun w => (w.now, w.rows)) = some (0, [⟨0, true, 3 / 5⟩, ⟨0, true, 3 / 5⟩]) := by
      simp [Machine.run, budgetMachine, budgetStep, moveTo, freshLedger, overlapping, hday, hmonth,
        hpass, hcost]
    obtain ⟨w, hw, heq⟩ := Option.map_eq_some_iff.mp hrun
    obtain ⟨hnow, hrows⟩ := Prod.mk.inj heq
    refine ⟨w, ⟨freshLedger, overlapping, fresh_starts, Machine.throughout_anyStep _ _ _, hw⟩, ?_⟩
    rw [hnow, hrows]
    norm_num [Within, spentSince, costSince, oneDollar, dayStart]
  · obtain ⟨w, hreaches, hnow, hrows⟩ := one_completion
    refine ⟨w, hreaches, ?_⟩
    rw [hnow, hrows]
    norm_num [Within, spentSince, costSince, oneDollar, dust, dayStart]

end AgenticKibana.Budget
