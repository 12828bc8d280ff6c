import Mathlib.Order.Lattice
import Mathlib.Tactic.Common
import AgenticKibana.Library.Monitor

/-!
# The investigation gate

`InvestigationGate.permit` bounds the investigations that run at once and keeps a slot free of
background work.  It changes three counters under a condition variable, in sections that wait,
and a cancelled task passes through the `finally` blocks of the section it is in.
-/

namespace AgenticKibana.Gates

open AgenticKibana.Library List

variable {τ : Type} [DecidableEq τ]

/-! ### The gate -/

/-- The points of `permit`: the way in, the wait inside of it, and the way out; each for an
ingest caller or for a background one. -/
inductive Permit where
  | enter (ingest : Bool)
  | waiting (ingest : Bool)
  | release (ingest : Bool)
deriving DecidableEq

/-- The counters of the gate, and the tasks that are between grant and release. -/
structure InvestigationGate (τ : Type) where
  active : Int
  backgroundActive : Int
  ingestWaiters : Int
  holders : List (τ × Bool)

/-- `max(1, int(cap or 1))`. -/
def limit (cap : Int) : Int := max 1 (if cap = 0 then 1 else cap)

/-- `max(1, limit - 1)`. -/
def backgroundLimit (cap : Int) : Int := max 1 (limit cap - 1)

/-- The predicate that `wait_for` waits for. -/
def admissible (cap : Int) (ingest : Bool) (g : InvestigationGate τ) : Bool :=
  g.active < limit cap &&
    (ingest || (g.ingestWaiters = 0 && g.backgroundActive < backgroundLimit cap))

/-- The inner `finally`: an ingest caller stops waiting and wakes the others. -/
def stopWaiting (ingest : Bool) (g : InvestigationGate τ) :
    Outcome Permit (InvestigationGate τ) :=
  if ingest then ⟨{ g with ingestWaiters := g.ingestWaiters - 1 }, true, none⟩
  else ⟨g, false, none⟩

/-- One round of `wait_for`, and the grant where its predicate holds. -/
def tryGrant (cap : Int) (t : τ) (ingest : Bool) (g : InvestigationGate τ) :
    Outcome Permit (InvestigationGate τ) :=
  if admissible cap ingest g then
    stopWaiting ingest
      { g with
        active := g.active + 1
        backgroundActive := if ingest then g.backgroundActive else g.backgroundActive + 1
        holders := (t, ingest) :: g.holders }
  else ⟨g, false, some (.waiting ingest)⟩

/-- The sections of `permit`. -/
def permitBody (cap : Int) (t : τ) :
    Permit → Bool → InvestigationGate τ → Outcome Permit (InvestigationGate τ)
  | .enter ingest, _, g =>
    tryGrant cap t ingest (if ingest then { g with ingestWaiters := g.ingestWaiters + 1 } else g)
  | .waiting ingest, cancelled, g =>
    if cancelled then stopWaiting ingest g else tryGrant cap t ingest g
  | .release ingest, _, g =>
    ⟨{ g with
        active := g.active - 1
        backgroundActive := if ingest then g.backgroundActive else g.backgroundActive - 1 },
      true, none⟩

/-- A task may ask for a permit at any time; one whose block ended, in whatever way, stops
holding its permit and comes to the release. -/
def permitArrive (t : τ) : Permit → InvestigationGate τ → Option (InvestigationGate τ)
  | .enter _, g => some g
  | .waiting _, _ => none
  | .release ingest, g =>
    if (t, ingest) ∈ g.holders then some { g with holders := g.holders.erase (t, ingest) }
    else none

def investigationGate (τ : Type) [DecidableEq τ] (cap : Int) :
    Monitor τ Permit (InvestigationGate τ) where
  start g := g = ⟨0, 0, 0, []⟩
  arrive := permitArrive
  body := permitBody cap

/-! ### Exact counters -/

def ingestWaiting : Permit → Bool
  | .waiting ingest => ingest
  | _ => false

/-- A task can only be suspended inside of `wait_for`. -/
def InWait (point : Permit) : Prop := ∃ ingest, point = .waiting ingest

def background (holders : List (τ × Bool)) : Nat := holders.countP fun h => !h.2

/-- **The counters are what they are meant to count**, within the bounds. -/
structure Exact (cap : Int) (g : InvestigationGate τ) (ws : List (Waiter τ Permit)) : Prop where
  active : g.active = g.holders.length
  backgroundActive : g.backgroundActive = background g.holders
  ingestWaiters : g.ingestWaiters = ws.countP fun w => ingestWaiting w.point
  limit : g.active ≤ limit cap
  backgroundLimit : g.backgroundActive ≤ backgroundLimit cap
  points : ∀ w ∈ ws, InWait w.point

omit [DecidableEq τ] in
theorem background_cons (t : τ) (ingest : Bool) (holders : List (τ × Bool)) :
    background ((t, ingest) :: holders) = background holders + if ingest then 0 else 1 := by
  cases ingest <;> simp [background]

theorem background_erase {t : τ} {ingest : Bool} {holders : List (τ × Bool)}
    (h : (t, ingest) ∈ holders) :
    background holders = background (holders.erase (t, ingest)) + if ingest then 0 else 1 := by
  have hperm : holders.Perm ((t, ingest) :: holders.erase (t, ingest)) := perm_cons_erase h
  rw [background, hperm.countP_eq]
  exact background_cons t ingest _

omit [DecidableEq τ] in
theorem exact_stopWaiting {cap : Int} {ingest : Bool} {g : InvestigationGate τ}
    {ws : List (Waiter τ Permit)} (t : τ) (hactive : g.active = g.holders.length)
    (hbackground : g.backgroundActive = background g.holders)
    (hwaiters : g.ingestWaiters =
      (ws.countP fun w => ingestWaiting w.point) + if ingest then 1 else 0)
    (hlimit : g.active ≤ limit cap) (hblimit : g.backgroundActive ≤ backgroundLimit cap)
    (hpoints : ∀ w ∈ ws, InWait w.point) :
    Exact cap (stopWaiting ingest g).data (Monitor.settle (stopWaiting ingest g) t ws) := by
  have hcount := Monitor.countP_settle ingestWaiting (stopWaiting ingest g) t ws
  have hnext : (stopWaiting ingest g).next = none := by cases ingest <;> rfl
  rw [hnext] at hcount
  have hall : ∀ w ∈ Monitor.settle (stopWaiting ingest g) t ws, InWait w.point :=
    Monitor.forall_settle InWait hpoints (by rw [hnext]; simp)
  cases ingest with
  | true =>
    refine ⟨hactive, hbackground, ?_, hlimit, hblimit, hall⟩
    rw [hcount]
    simp only [stopWaiting, if_true] at hwaiters ⊢
    simp [hwaiters]
  | false =>
    refine ⟨hactive, hbackground, ?_, hlimit, hblimit, hall⟩
    rw [hcount]
    simp only [stopWaiting, Bool.false_eq_true, if_false] at hwaiters ⊢
    simp [hwaiters]

omit [DecidableEq τ] in
theorem exact_tryGrant {cap : Int} {ingest : Bool} {g : InvestigationGate τ}
    {ws : List (Waiter τ Permit)} (t : τ) (hactive : g.active = g.holders.length)
    (hbackground : g.backgroundActive = background g.holders)
    (hwaiters : g.ingestWaiters =
      (ws.countP fun w => ingestWaiting w.point) + if ingest then 1 else 0)
    (hlimit : g.active ≤ limit cap) (hblimit : g.backgroundActive ≤ backgroundLimit cap)
    (hpoints : ∀ w ∈ ws, InWait w.point) :
    Exact cap (tryGrant cap t ingest g).data
      (Monitor.settle (tryGrant cap t ingest g) t ws) := by
  unfold tryGrant
  by_cases hadm : admissible cap ingest g = true
  · rw [if_pos hadm]
    simp only [admissible, Bool.and_eq_true, Bool.or_eq_true, decide_eq_true_eq] at hadm
    refine exact_stopWaiting t ?_ ?_ hwaiters ?_ ?_ hpoints
    · simp [hactive]
    · dsimp only
      rw [background_cons]
      cases ingest <;> simp [hbackground]
    · dsimp only
      omega
    · dsimp only
      cases ingest with
      | true => exact hblimit
      | false =>
        have hroom := (hadm.2.resolve_left (by simp)).2
        simp only [Bool.false_eq_true, if_false]
        omega
  · rw [if_neg hadm]
    have hcount := Monitor.countP_settle ingestWaiting
      (⟨g, false, some (.waiting ingest)⟩ : Outcome Permit (InvestigationGate τ)) t ws
    refine ⟨hactive, hbackground, ?_, hlimit, hblimit, ?_⟩
    · rw [hcount, hwaiters]
      cases ingest <;> simp [ingestWaiting]
    · refine Monitor.forall_settle InWait hpoints fun point hpoint => ?_
      exact ⟨ingest, (Option.some.inj hpoint).symm⟩

/-- **In every state that the gate reaches the counters are exact.** -/
theorem exact_of_reaches {cap : Int}
    {s : MonitorState τ Permit (InvestigationGate τ)}
    (h : (investigationGate τ cap).machine.Reaches Machine.anyStep s) :
    Exact cap s.data s.waiting := by
  refine Monitor.invariant (investigationGate τ cap) (I := Exact cap) ?_ ?_ ?_ h
  · rintro g rfl
    constructor
    · rfl
    · rfl
    · rfl
    · simp [limit]
    · simp [backgroundLimit]
    · simp
  · intro g g' ws t point hg harrive
    cases point with
    | enter ingest =>
      obtain rfl : g = g' := Option.some.inj harrive
      have hwaiters := hg.ingestWaiters
      cases ingest with
      | true | false =>
        refine exact_tryGrant t hg.active hg.backgroundActive ?_ hg.limit hg.backgroundLimit
          hg.points
        simp [hwaiters]
    | waiting ingest => cases harrive
    | release ingest =>
      change (if (t, ingest) ∈ g.holders then _ else _) = _ at harrive
      by_cases hmem : (t, ingest) ∈ g.holders
      · rw [if_pos hmem] at harrive
        obtain rfl := Option.some.inj harrive
        have hlen : g.holders.length = (g.holders.erase (t, ingest)).length + 1 := by
          rw [length_erase_of_mem hmem]
          have := length_pos_of_mem hmem
          omega
        have hback := background_erase hmem
        have hcount := Monitor.countP_settle ingestWaiting
          (permitBody cap t (.release ingest) false
            { g with holders := g.holders.erase (t, ingest) }) t ws
        have hactive := hg.active
        have hbackground := hg.backgroundActive
        have hlimit := hg.limit
        have hblimit := hg.backgroundLimit
        constructor
        · change g.active - 1 = ((g.holders.erase (t, ingest)).length : Int)
          omega
        · change (if ingest then g.backgroundActive else g.backgroundActive - 1) =
            (background (g.holders.erase (t, ingest)) : Int)
          cases ingest <;> simp only [Bool.false_eq_true, if_false, if_true] at hback ⊢ <;> omega
        · refine hg.ingestWaiters.trans ?_
          rw [show (investigationGate τ cap).body = permitBody cap from rfl, hcount]
          simp [permitBody]
        · change g.active - 1 ≤ Gates.limit cap
          omega
        · change (if ingest then g.backgroundActive else g.backgroundActive - 1) ≤
            Gates.backgroundLimit cap
          cases ingest <;> simp only [Bool.false_eq_true, if_false, if_true] <;> omega
        · refine Monitor.forall_settle InWait hg.points fun point hpoint => ?_
          simp [investigationGate, permitBody] at hpoint
      · rw [if_neg hmem] at harrive
        cases harrive
  · intro g a w b cancelled hg
    obtain ⟨ingest, hpoint⟩ := hg.points w (by simp)
    have hwaiters : g.ingestWaiters =
        ((a ++ b).countP fun w => ingestWaiting w.point) + if ingest then 1 else 0 := by
      rw [hg.ingestWaiters]
      cases ingest with
      | true =>
        simp only [countP_append, countP_cons, hpoint, ingestWaiting, if_true]
        omega
      | false => simp [countP_append, hpoint, ingestWaiting]
    have hpoints : ∀ w ∈ a ++ b, InWait w.point := fun v hv =>
      hg.points v (by
        rcases mem_append.mp hv with hv | hv
        · exact mem_append_left _ hv
        · exact mem_append_right _ (mem_cons_of_mem w hv))
    rw [hpoint]
    cases cancelled with
    | true =>
      exact exact_stopWaiting w.task hg.active hg.backgroundActive hwaiters hg.limit
        hg.backgroundLimit hpoints
    | false =>
      exact exact_tryGrant w.task hg.active hg.backgroundActive hwaiters hg.limit
        hg.backgroundLimit hpoints

/-- A task that holds one more background permit than before was granted one while no ingest
caller waited. -/
theorem ingestWaiters_of_granted {cap : Int} {t u : τ} {ingest : Bool} {g : InvestigationGate τ}
    (h : g.holders.count (u, false) < (tryGrant cap t ingest g).data.holders.count (u, false)) :
    ingest = false ∧ g.ingestWaiters = 0 := by
  unfold tryGrant at h
  by_cases hadm : admissible cap ingest g = true
  · rw [if_pos hadm] at h
    simp only [admissible, Bool.and_eq_true, Bool.or_eq_true, decide_eq_true_eq] at hadm
    cases ingest with
    | true =>
      exfalso
      simp [stopWaiting] at h
    | false => exact ⟨rfl, (hadm.2.resolve_left (by simp)).1⟩
  · rw [if_neg hadm] at h
    exact absurd h (lt_irrefl _)

theorem limit_eq (cap : Int) : limit cap = max 1 cap := by
  unfold limit
  split
  · rename_i h
    simp [h]
  · rfl

/-- **Permits are exact**: in every state that any tasks reach with one cap, whatever is
cancelled, the counters are the numbers of the holders and of the waiting ingest callers and
keep their bounds, nobody waits for the lock, a step that grants a background permit finds no
ingest caller waiting, and when all tasks have ended the counters are zero. -/
theorem permits_exact (cap : Int) {s : MonitorState τ Permit (InvestigationGate τ)}
    (h : (investigationGate τ cap).machine.Reaches Machine.anyStep s) :
    s.data.active = s.data.holders.length ∧
      s.data.active ≤ max 1 cap ∧
      s.data.backgroundActive = background s.data.holders ∧
      s.data.backgroundActive ≤ max 1 (cap - 1) ∧
      s.acquiring = [] ∧
      (∀ e s' t, (investigationGate τ cap).step s e = some s' →
        s.data.holders.count (t, false) < s'.data.holders.count (t, false) →
        ∀ w ∈ s.waiting, w.point ≠ .waiting true) ∧
      (s.data.holders = [] → s.waiting = [] →
        s.data.active = 0 ∧ s.data.backgroundActive = 0 ∧ s.data.ingestWaiters = 0) := by
  have hexact := exact_of_reaches h
  have hcalm := (investigationGate τ cap).calm_of_reaches h
  refine ⟨hexact.active, limit_eq cap ▸ hexact.limit, hexact.backgroundActive, ?_,
    hcalm.acquiring, ?_, ?_⟩
  · have hlimit := hexact.backgroundLimit
    rw [backgroundLimit, limit_eq] at hlimit
    omega
  · intro e s' t hstep hgrant w hw hpoint
    have hnone : s.data.ingestWaiters = 0 := by
      rcases (investigationGate τ cap).step_cases hcalm hstep with
        ⟨u, point, g, -, -, harrive, rfl⟩ | ⟨v, a, b, cancelled, hsplit, -, rfl⟩
      · cases point with
        | enter ingest =>
          obtain rfl : s.data = g := Option.some.inj harrive
          cases ingest with
          | true =>
            have hfalse := (@ingestWaiters_of_granted τ _ cap u t true
              { s.data with ingestWaiters := s.data.ingestWaiters + 1 } hgrant).1
            cases hfalse
          | false => exact (ingestWaiters_of_granted hgrant).2
        | waiting ingest => cases harrive
        | release ingest =>
          exfalso
          change (if (u, ingest) ∈ s.data.holders then _ else _) = _ at harrive
          by_cases hmem : (u, ingest) ∈ s.data.holders
          · rw [if_pos hmem] at harrive
            obtain rfl := Option.some.inj harrive
            exact absurd (List.erase_sublist.count_le (t, false)) (Nat.not_le.mpr hgrant)
          · rw [if_neg hmem] at harrive
            cases harrive
      · obtain ⟨ingest, hv⟩ := hexact.points v (by rw [hsplit]; simp)
        change s.data.holders.count (t, false) <
          ((permitBody cap v.task v.point cancelled s.data).data.holders).count (t, false) at hgrant
        rw [hv] at hgrant
        cases cancelled with
        | true =>
          exfalso
          cases ingest <;> simp [permitBody, stopWaiting] at hgrant
        | false => exact (ingestWaiters_of_granted hgrant).2
    have hcount := hexact.ingestWaiters
    rw [hnone] at hcount
    have hzero : s.waiting.countP (fun w => ingestWaiting w.point) = 0 := by omega
    exact absurd (List.countP_eq_zero.mp hzero w hw) (by simp [hpoint, ingestWaiting])
  · intro hholders hwaiting
    have hactive := hexact.active
    have hbackground := hexact.backgroundActive
    have hwaiters := hexact.ingestWaiters
    rw [hholders] at hactive hbackground
    rw [hwaiting] at hwaiters
    exact ⟨hactive, hbackground, hwaiters⟩

/-- With two slots an ingest caller waits behind two holders; it gets its permit when the
background holder is cancelled. -/
theorem permits_exact_two_slots :
    ∃ s : MonitorState Nat Permit (InvestigationGate Nat),
      (investigationGate Nat 2).machine.Reaches Machine.anyStep s ∧
        s.data.holders = [(2, true), (0, true)] ∧ s.data.active = s.data.holders.length := by
  have hstart : (investigationGate Nat 2).machine.start ⟨⟨0, 0, 0, []⟩, false, [], []⟩ :=
    ⟨rfl, rfl, rfl, rfl⟩
  have hrun : ((investigationGate Nat 2).machine.run ⟨⟨0, 0, 0, []⟩, false, [], []⟩
      [.arrive 0 (.enter true), .arrive 1 (.enter false), .arrive 2 (.enter true),
        .arrive 1 (.release false), .wake 2]).any
      (fun s => decide (s.data.holders = [(2, true), (0, true)])) = true := by decide
  obtain ⟨s, -, hs, hholders⟩ := Machine.reaches_of_run _ _ _ _ hstart hrun
  exact ⟨s, hs, of_decide_eq_true hholders, (permits_exact 2 hs).1⟩

end AgenticKibana.Gates
