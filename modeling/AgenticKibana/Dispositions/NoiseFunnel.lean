import AgenticKibana.CaseIds.NumberPatterns
import AgenticKibana.Precedent.Promotion
import AgenticKibana.Library.Machine

/-!
# Who decided a case, and the noise funnel

The pipeline writes the open case of a cluster or a new one: it closes it by a declared policy,
investigates it, fails, parks it as a candidate or attaches to it.  An analyst acts on any case.
Every writer of the pipeline sets the owner of the decision and the payload of the policy
together, the analyst's only the owner, so `rule_outcome_tally` and `is_policy_closed` part ways
exactly from an analyst's action on a policy close on.

`build_noise_reduction` counts the cases of a window by a ladder of predicates that overlap, in
total and per severity band, and folds what the ladder leaves into the escalated stage.
-/

namespace AgenticKibana.Dispositions

open AgenticKibana.Library Option
open CaseIds (Verdict)

abbrev Text : Type := List Char

inductive CaseStatus where
  | new
  | opened
  | needsHuman
  | investigating
  | escalated
  | onHold
  | resolved
  | closed
deriving DecidableEq

/-- `TERMINAL_CASE_STATUSES`. -/
def CaseStatus.terminal : CaseStatus → Bool
  | .resolved | .closed => true
  | _ => false

inductive DecisionBy where
  | agent
  | analyst
  | system
  | analystPolicy
deriving DecidableEq

structure Case where
  ruleIds : List Text := []
  verdict : Option Verdict := none
  status : CaseStatus := .opened
  decisionBy : Option DecisionBy := none
  /-- the payload of a policy close: the ids of the policies -/
  analystPolicy : Option (List Text) := none
  escalationLevel : Int := 0
  statusHistory : List CaseStatus := []

namespace Case

def record (history : List CaseStatus) (prev status : CaseStatus) : List CaseStatus :=
  if status = prev then history else history ++ [status]

/-- `_close_by_analyst_policy`, where the declarations that match the rules are `policies`: an
investigated case, one that an analyst decided and a forced run are left alone. -/
def closeByPolicy (existing : Option Case) (force : Bool) (ruleIds policies : List Text) :
    Option Case :=
  if (existing.any fun c => c.verdict.isSome || c.decisionBy = some .analyst) || force then none
  else some
    { ruleIds, status := .closed, decisionBy := some .analystPolicy, analystPolicy := some policies
      statusHistory := match existing with
        | some c => record c.statusHistory c.status .closed
        | none => [.closed] }

/-- What the policy of a verdict says of a case: its bar for closing is cleared, and it is flagged
where it stays open. -/
structure Ruling where
  clears : Bool
  flagged : Bool

/-- `decide` and `CaseManager.apply`; no verdict but those two has a bar for closing. -/
def applied (c : Case) (verdict : Verdict) (ruling : Ruling) : Case :=
  let closes := match verdict with
    | .needsHuman => false
    | .falsePositive | .truePositive => ruling.clears
  let escalates := match verdict with
    | .truePositive => ruling.flagged
    | .falsePositive | .needsHuman => false
  let status : CaseStatus :=
    if closes then .closed else if escalates then .escalated else .needsHuman
  { c with
    status, decisionBy := some (if closes then .agent else .system)
    escalationLevel := if status = .escalated then max c.escalationLevel 1 else c.escalationLevel
    statusHistory := record c.statusHistory c.status status }

inductive Work where
  | policy (force : Bool) (ruleIds policies : List Text)
  | investigate (ruleIds : List Text) (verdict : Verdict) (ruling : Ruling)
  | fail (ruleIds : List Text)
  | candidate (ruleIds : List Text)
  | attach (ruleIds : List Text)

def Work.written (existing : Option Case) : Work → Option Case
  | .policy force ruleIds policies => closeByPolicy existing force ruleIds policies
  | .investigate ruleIds verdict ruling =>
    some (({ ruleIds, verdict := some verdict } : Case).applied verdict ruling)
  | .fail ruleIds =>
    some { ruleIds, verdict := some .needsHuman, status := .needsHuman, decisionBy := some .system }
  | .candidate ruleIds => some { ruleIds }
  | .attach ruleIds => existing.map fun c => { c with ruleIds }

inductive Action where
  | close
  | confirmFp
  | reopen
  | escalate (level : Option Int)
  | deescalate
  | hold
  | resume
  | resolve
  | acknowledge
  | setDisposition
  | setStatus (status : CaseStatus)
deriving DecidableEq

/-- `_ACTION_STATUS`. -/
def Action.target : Action → Option CaseStatus
  | .close | .confirmFp => some .closed
  | .reopen | .deescalate | .resume => some .opened
  | .escalate _ => some .escalated
  | .hold => some .onHold
  | .resolve => some .resolved
  | .acknowledge => some .investigating
  | .setDisposition => none
  | .setStatus status => some status

def guardTransition (action : Action) (current : CaseStatus) (target : CaseStatus) : Bool :=
  if target = current then true
  else if current = .resolved ∧ target = .closed ∧ (action = .close ∨ action = .confirmFp) then true
  else if current.terminal && decide (action ≠ .reopen) then false
  else match action with
    | .setStatus _ => decide (target ≠ .closed)
    | _ => true

/-- `_perform_case_action`; nothing where it is refused. -/
def perform (c : Case) (action : Action) : Option Case :=
  if action.target.all (guardTransition action c.status) then
    let status := action.target.getD c.status
    some { c with
      status, decisionBy := some .analyst
      escalationLevel := match action with
        | .escalate (some level) => max level 1
        | .escalate none => max c.escalationLevel 1
        | .deescalate => 0
        | _ => c.escalationLevel
      statusHistory := record c.statusHistory c.status status }
  else none

end Case

/-- The cases, what the runs of the pipeline have read of theirs, and a ghost: which of the records
that are stored a policy closed and no analyst acted on since. -/
structure Desk where
  cases : Dict String Case
  found : Nat → Option (String × Option Case)
  declared : String → Bool

inductive Event where
  /-- a run of the pipeline reads the open case of its cluster, or gets a new id -/
  | find (run : Nat) (caseId : String)
  /-- it writes over whatever is stored by then -/
  | save (run : Nat) (caseId : String) (work : Case.Work)
  | finish (run : Nat)
  | analyst (caseId : String) (action : Case.Action)

def Case.Work.declares : Case.Work → Bool
  | .policy _ _ _ => true
  | _ => false

namespace Desk

def put (s : Desk) (caseId : String) (c : Case) (declared : Bool) : Desk :=
  { s with
    cases := s.cases.set caseId c
    declared := Function.update s.declared caseId declared }

def take (s : Desk) (run : Nat) (held : Option (String × Option Case)) : Desk :=
  { s with found := Function.update s.found run held }

def step (s : Desk) : Event → Option Desk
  | .find run caseId =>
    let existing := s.cases.get? caseId
    if (s.found run).isSome || existing.any fun c => c.status.terminal then none
    else some (s.take run (some (caseId, existing)))
  | .save run caseId work =>
    (s.found run).bind fun (id, existing) =>
      if id = caseId then (work.written existing).map fun c =>
        s.put caseId c work.declares else none
  | .finish run => some (s.take run none)
  | .analyst caseId action =>
    ((s.cases.get? caseId).bind fun c => c.perform action).map fun c => s.put caseId c false

end Desk

def emptyDesk : Desk := ⟨Dict.empty, fun _ => none, fun _ => false⟩

def deskMachine : Machine Desk Event where
  start s := s = emptyDesk
  step := Desk.step

section Steps

variable {s t : Desk} {e : Event}

inductive Stepped (s : Desk) : Event → Desk → Prop where
  | found {run : Nat} {id : String} :
    (∀ c, s.cases.get? id = some c → c.status.terminal = false) →
    Stepped s (.find run id) (s.take run (some (id, s.cases.get? id)))
  | saved {run : Nat} {id : String} {work : Case.Work} (existing : Option Case) (c : Case) :
    s.found run = some (id, existing) → work.written existing = some c →
    Stepped s (.save run id work) (s.put id c work.declares)
  | finished {run : Nat} : Stepped s (.finish run) (s.take run none)
  | analyst {id : String} {action : Case.Action} (c' c : Case) : s.cases.get? id = some c' →
    c'.perform action = some c → Stepped s (.analyst id action) (s.put id c false)

theorem stepped_of_step (h : s.step e = some t) : Stepped s e t := by
  cases e with
  | find run id =>
    simp only [Desk.step] at h
    split at h
    · cases h
    · next hopen =>
      cases h
      refine .found fun c hc => ?_
      simp only [hc, any_some, Bool.or_eq_true, not_or, Bool.not_eq_true] at hopen
      exact hopen.2
  | save run id work =>
    simp only [Desk.step, bind_eq_some_iff, Prod.exists] at h
    obtain ⟨id', existing, hfound, h⟩ := h
    split at h
    · next hid =>
      subst hid
      obtain ⟨c, hc, rfl⟩ := map_eq_some_iff.mp h
      exact .saved existing c hfound hc
    · cases h
  | finish run =>
    cases h
    exact .finished
  | analyst id action =>
    simp only [Desk.step, map_eq_some_iff, bind_eq_some_iff] at h
    obtain ⟨c, ⟨c', hc', hc⟩, rfl⟩ := h
    exact .analyst c' c hc' hc

/-- Whom a run's work leaves as the owner of the decision: a policy with its payload, nobody with
one, or whoever it was. -/
theorem written_cases {work : Case.Work} {existing : Option Case} {c : Case}
    (h : work.written existing = some c) :
    (work.declares = true ∧ c.decisionBy = some .analystPolicy ∧ c.analystPolicy.isSome = true ∧
      c.status = .closed) ∨
    (work.declares = false ∧ c.decisionBy ≠ some .analystPolicy ∧ c.analystPolicy = none) ∨
    work.declares = false ∧ ∃ c', existing = some c' ∧ c.decisionBy = c'.decisionBy ∧
      c.analystPolicy = c'.analystPolicy ∧ c.status = c'.status := by
  cases work with
  | policy force ruleIds policies =>
    simp only [Case.Work.written, Case.closeByPolicy] at h
    split at h
    · cases h
    · cases h
      exact .inl ⟨rfl, rfl, rfl, rfl⟩
  | investigate ruleIds verdict ruling =>
    cases h
    refine .inr (.inl ⟨rfl, ?_, rfl⟩)
    cases verdict <;> cases hclears : ruling.clears <;> simp [Case.applied, hclears]
  | fail ruleIds | candidate ruleIds =>
    cases h
    exact .inr (.inl ⟨rfl, by simp, rfl⟩)
  | attach ruleIds =>
    obtain ⟨c', hc', rfl⟩ := map_eq_some_iff.mp h
    exact .inr (.inr ⟨rfl, c', hc', rfl, rfl, rfl⟩)

theorem performed {c c' : Case} {action : Case.Action} (h : c'.perform action = some c) :
    c.decisionBy = some .analyst ∧ c.analystPolicy = c'.analystPolicy := by
  simp only [Case.perform] at h
  split at h
  · cases h
    exact ⟨rfl, rfl⟩
  · cases h

/-- What is known of the stored records, and of those that the runs have read. -/
structure Desk.Keeps (P : Bool → Case → Prop) (Q : Case → Prop) (s : Desk) : Prop where
  stored : ∀ id c, s.cases.get? id = some c → P (s.declared id) c
  held : ∀ run id c, s.found run = some (id, some c) → Q c

section Keeps

variable {P : Bool → Case → Prop} {Q : Case → Prop} (h : s.Keeps P Q)

include h

theorem Desk.Keeps.put {id : String} {c : Case} {declared : Bool} (hnew : P declared c) :
    (s.put id c declared).Keeps P Q := by
  refine ⟨fun i c' hc' => ?_, h.held⟩
  by_cases hi : i = id
  · subst hi
    simp only [Desk.put, Dict.get?_set_self, Option.some.injEq] at hc'
    simpa [Desk.put, ← hc'] using hnew
  · simp only [Desk.put, Dict.get?_set_of_ne _ _ hi] at hc'
    simpa [Desk.put, Function.update_of_ne hi] using h.stored i c' hc'

theorem Desk.Keeps.take {run : Nat} {held : Option (String × Option Case)}
    (hnew : ∀ id c, held = some (id, some c) → Q c) : (s.take run held).Keeps P Q := by
  refine ⟨h.stored, fun r id c hc => ?_⟩
  by_cases hr : r = run
  · subst hr
    exact hnew id c (by simpa [Desk.take] using hc)
  · simp only [Desk.take, Function.update_of_ne hr] at hc
    exact h.held r id c hc

end Keeps

theorem keeps_start {P : Bool → Case → Prop} {Q : Case → Prop} : emptyDesk.Keeps P Q :=
  ⟨fun _ _ h => by simp [emptyDesk] at h, fun _ _ _ h => by cases h⟩

end Steps

/-! ### Outcomes per rule -/

open Precedent (ruleIdentity)

def isPolicyClosed (c : Case) : Bool :=
  c.decisionBy = some .analystPolicy || c.analystPolicy.isSome

structure RuleOutcomeTally where
  total : Nat := 0
  routedToHuman : Nat := 0
  autoClosed : Nat := 0
  analystClosed : Nat := 0
  policyClosed : Nat := 0
  undecided : Nat := 0
deriving DecidableEq

def routed (c : Case) : Bool :=
  (match c.verdict with | some .needsHuman => true | _ => false) ||
    decide (c.status = .needsHuman) || (!c.status.terminal && c.verdict.isSome)

def RuleOutcomeTally.count (t : RuleOutcomeTally) (c : Case) : RuleOutcomeTally :=
  let t := { t with total := t.total + 1 }
  if c.decisionBy = some .analystPolicy then { t with policyClosed := t.policyClosed + 1 }
  else if c.status.terminal && decide (c.decisionBy = some .agent) then
    { t with autoClosed := t.autoClosed + 1 }
  else if c.status.terminal && decide (c.decisionBy = some .analyst) then
    { t with analystClosed := t.analystClosed + 1 }
  else if routed c then { t with routedToHuman := t.routedToHuman + 1 }
  else { t with undecided := t.undecided + 1 }

def identityOf (c : Case) : Text := ruleIdentity c.ruleIds

def tallyStep (raw : Dict Text RuleOutcomeTally) (c : Case) : Dict Text RuleOutcomeTally :=
  if identityOf c = [] then raw
  else raw.set (identityOf c) (((raw.get? (identityOf c)).getD {}).count c)

def ruleOutcomeTally (cases : List Case) : Dict Text RuleOutcomeTally :=
  cases.foldl tallyStep Dict.empty

theorem get?_ruleOutcomeTally (cases : List Case) (i : Text) :
    (ruleOutcomeTally cases).get? i =
      if i ≠ [] ∧ ∃ c ∈ cases, identityOf c = i then
        some ((cases.filter fun c => identityOf c = i).foldl RuleOutcomeTally.count {})
      else none := by
  induction cases using List.reverseRecOn with
  | nil => simp [ruleOutcomeTally]
  | append_singleton cases c ih =>
    have hstep : ruleOutcomeTally (cases ++ [c]) = tallyStep (ruleOutcomeTally cases) c := by
      simp [ruleOutcomeTally]
    rw [hstep, tallyStep]
    by_cases hblank : identityOf c = []
    · rw [if_pos hblank, ih]
      by_cases hi : i = []
      · simp [hi]
      · have hother : identityOf c ≠ i := fun h => hi (h ▸ hblank)
        simp [hi, hother]
    · rw [if_neg hblank, Dict.get?_set]
      by_cases hi : i = identityOf c
      · subst hi
        rw [if_pos rfl, ih]
        by_cases hfirst : ∃ x ∈ cases, identityOf x = identityOf c
        · simp [hblank, hfirst]
        · have hnone : cases.filter (fun x => decide (identityOf x = identityOf c)) = [] := by
            simpa using hfirst
          simp [hblank, hfirst, hnone]
      · rw [if_neg hi, ih]
        have hother : identityOf c ≠ i := fun h => hi h.symm
        simp [hother]

def closedByAnalyst (c : Case) : Bool :=
  c.status.terminal && decide (c.decisionBy = some .analyst) && !isPolicyClosed c

/-- **What the tally of some cases says**: every case is in one slot, those that a policy closed are
in theirs, and no other is an analyst's close. -/
structure Sums (cases : List Case) (t : RuleOutcomeTally) : Prop where
  total : t.total = cases.length
  slots : t.routedToHuman + t.autoClosed + t.analystClosed + t.policyClosed + t.undecided = t.total
  policyClosed : t.policyClosed = cases.countP isPolicyClosed
  analystClosed : t.analystClosed = cases.countP closedByAnalyst

def Marked (c : Case) : Prop := c.analystPolicy.isSome = decide (c.decisionBy = some .analystPolicy)

theorem sums_foldl (cases : List Case) (hmarked : ∀ c ∈ cases, Marked c) :
    Sums cases (cases.foldl RuleOutcomeTally.count {}) := by
  induction cases using List.reverseRecOn with
  | nil => exact ⟨rfl, rfl, rfl, rfl⟩
  | append_singleton cases c ih =>
    have h := ih fun c hc => hmarked c (List.mem_append_left _ hc)
    have hc : Marked c := hmarked c (by simp)
    rw [List.foldl_append, List.foldl_cons, List.foldl_nil]
    have hpolicy : isPolicyClosed c = decide (c.decisionBy = some .analystPolicy) := by
      rw [isPolicyClosed, hc, Bool.or_self]
    obtain ⟨htotal, hslots, hclosed, hanalyst⟩ := h
    simp only [RuleOutcomeTally.count]
    split
    · next hby =>
      have hother : closedByAnalyst c = false := by simp [closedByAnalyst, hby]
      refine ⟨?_, ?_, ?_, ?_⟩ <;> simp [htotal, hclosed, hanalyst, hpolicy, hby, hother]
      omega
    · next hby =>
      have hnone : isPolicyClosed c = false := by simpa [hpolicy] using hby
      split
      · next hagent =>
        simp only [Bool.and_eq_true, decide_eq_true_eq] at hagent
        have hother : closedByAnalyst c = false := by simp [closedByAnalyst, hagent]
        refine ⟨?_, ?_, ?_, ?_⟩ <;> simp [htotal, hclosed, hanalyst, hnone, hother]
        omega
      · split
        · next hanalysts =>
          have hthis : closedByAnalyst c = true := by simpa [closedByAnalyst, hnone] using hanalysts
          refine ⟨?_, ?_, ?_, ?_⟩ <;> simp [htotal, hclosed, hanalyst, hnone, hthis]
          omega
        · next hother =>
          have hother : closedByAnalyst c = false := by
            rw [closedByAnalyst, eq_false_of_ne_true hother, Bool.false_and]
          split
          · refine ⟨?_, ?_, ?_, ?_⟩ <;> simp [htotal, hclosed, hanalyst, hnone, hother]
            omega
          · refine ⟨?_, ?_, ?_, ?_⟩ <;> simp [htotal, hclosed, hanalyst, hnone, hother]
            omega

def LeavesDeclared (s : Desk) (e : Event) : Prop :=
  ∀ id action c, e = .analyst id action → s.cases.get? id = some c → c.analystPolicy = none

theorem marked_of_reaches {s : Desk} (h : deskMachine.Reaches LeavesDeclared s) :
    s.Keeps (fun _ => Marked) Marked := by
  refine Machine.invariant (I := Desk.Keeps (fun _ => Marked) Marked) ?_ ?_ h
  · rintro s rfl
    exact keeps_start
  · intro s e t hs hleaves hstep
    cases stepped_of_step hstep with
    | found _ =>
      refine hs.take fun id c hc => ?_
      obtain ⟨rfl, hread⟩ := Prod.mk.inj (Option.some.inj hc)
      exact hs.stored _ c hread
    | finished => exact hs.take fun _ _ h => by cases h
    | saved existing c hfound hc =>
      apply hs.put
      rcases written_cases hc with ⟨-, hby, hpolicy, -⟩ | ⟨-, hby, hpolicy⟩ |
        ⟨-, c', rfl, hby, hpolicy, -⟩
      · simp [Marked, hby, hpolicy]
      · simp [Marked, hby, hpolicy]
      · have := hs.held _ _ c' hfound
        rwa [Marked, hby, hpolicy]
    | analyst c' c hc' hperform =>
      obtain ⟨hby, hpolicy⟩ := performed hperform
      have hnone := hleaves _ _ c' rfl hc'
      exact hs.put (by simp [Marked, hby, hpolicy, hnone])

/-- **Policy closes stay out of the statistics of agents and analysts** as long as no analyst acts
on a case that carries the payload of one: in the tallies of any cases each with a rule identity is
counted once, and the policy closes are those of `is_policy_closed`. -/
theorem tally_apart {s : Desk} (h : deskMachine.Reaches LeavesDeclared s) (cases : List Case)
    (hcases : ∀ c ∈ cases, c ∈ s.cases.values) (i : Text) :
    ((ruleOutcomeTally cases).get? i).isSome = decide (i ≠ [] ∧ ∃ c ∈ cases, identityOf c = i) ∧
    ∀ t, (ruleOutcomeTally cases).get? i = some t →
      Sums (cases.filter fun c => identityOf c = i) t := by
  rw [get?_ruleOutcomeTally]
  refine ⟨by split <;> simp_all, fun t ht => ?_⟩
  split at ht
  · cases ht
    refine sums_foldl _ fun c hc => ?_
    obtain ⟨id, hid⟩ := Dict.mem_values_iff.mp (hcases c (List.mem_filter.mp hc).1)
    exact (marked_of_reaches h).stored id c hid
  · cases ht

/-- A rule that was declared benign closes a case, and an analyst resolves one of another rule. -/
def declaredBenign : List Event :=
  [.find 0 "case-1", .save 0 "case-1" (.policy false ["r1".toList] ["p1".toList])]

def resolvedApart : List Event :=
  declaredBenign ++
    [.find 1 "case-2", .save 1 "case-2" (.candidate ["r1".toList]), .analyst "case-2" .resolve]

theorem tally_of_declared : ∃ s : Desk, ∃ t,
    (ruleOutcomeTally s.cases.values).get? "r1".toList = some t ∧
      t.policyClosed = 1 ∧ t.analystClosed = 1 ∧
      Sums (s.cases.values.filter fun c => identityOf c = "r1".toList) t := by
  let leaves (s : Desk) (e : Event) : Bool := match e with
    | .analyst id _ => (s.cases.get? id).all (·.analystPolicy.isNone)
    | _ => true
  have hcond : ∀ s e, leaves s e = true → LeavesDeclared s e := by
    rintro s e he id action c rfl hc
    simpa [leaves, hc] using he
  have hrun : (deskMachine.runChecked leaves emptyDesk resolvedApart).any (fun s =>
      (ruleOutcomeTally s.cases.values).get? "r1".toList =
        some { total := 2, policyClosed := 1, analystClosed := 1 }) = true := by
    decide
  obtain ⟨s, hs, htally⟩ := Machine.reaches_of_runChecked hcond rfl hrun
  have ht := of_decide_eq_true htally
  exact ⟨s, _, ht, rfl, rfl, (tally_apart hs _ (fun _ hc => hc) _).2 _ ht⟩

theorem label_of_declaration : ∃ s : Desk, deskMachine.Reaches Machine.anyStep s ∧
    s.cases.values.all isPolicyClosed = true ∧
    (ruleOutcomeTally s.cases.values).get? "r1".toList =
      some { total := 1, analystClosed := 1 } := by
  obtain ⟨s, -, hs, hend⟩ := Machine.reaches_of_run deskMachine (fun s =>
      s.cases.values.all isPolicyClosed && decide
        ((ruleOutcomeTally s.cases.values).get? "r1".toList =
          some { total := 1, analystClosed := 1 }))
    _ (declaredBenign ++ [.analyst "case-1" .confirmFp]) rfl (by decide)
  simp only [Bool.and_eq_true, decide_eq_true_eq] at hend
  exact ⟨s, hs, hend.1, hend.2⟩

/-! ### The noise funnel -/

open List

inductive Band where
  | critical
  | high
  | medium
  | low
  | info
deriving DecidableEq

def severityBands : List Band := [.critical, .high, .medium, .low, .info]

structure Tally where
  total : Nat := 0
  bands : Band → Nat := fun _ => 0

namespace Tally

def add (t : Tally) (band : Band) : Tally :=
  ⟨t.total + 1, fun b => if b = band then t.bands b + 1 else t.bands b⟩

def number (t : Tally) : Option Band → Nat
  | none => t.total
  | some band => t.bands band

end Tally

/-! ### The predicates of the ladder -/

def isEscalated (c : Case) : Bool :=
  c.status = .escalated || decide (0 < c.escalationLevel) || c.statusHistory.contains .escalated

def isNeedsHuman (c : Case) : Bool :=
  match c.verdict with
  | some .needsHuman => true
  | _ => !c.status.terminal && !isEscalated c

def isAutoCleared (c : Case) : Bool :=
  c.status.terminal && decide (c.decisionBy = some .agent) &&
    match c.verdict with
    | some .falsePositive => true
    | _ => false

/-- `_is_policy_closed` of the funnel, which reads the owner of the decision alone. -/
def closedByPolicy (c : Case) : Bool := c.decisionBy = some .analystPolicy

def isHumanClosed (c : Case) : Bool := c.status.terminal && decide (c.decisionBy = some .analyst)

structure Ladder where
  cases : Tally := {}
  needsHuman : Tally := {}
  escalated : Tally := {}
  autoCleared : Tally := {}
  closed : Tally := {}
  policyClosed : Tally := {}

namespace Ladder

def count (l : Ladder) (band : Band) (c : Case) : Ladder :=
  let l := { l with cases := l.cases.add band }
  if closedByPolicy c then { l with policyClosed := l.policyClosed.add band }
  else
    let l := if isHumanClosed c then { l with closed := l.closed.add band } else l
    if isNeedsHuman c then { l with needsHuman := l.needsHuman.add band }
    else if isEscalated c then { l with escalated := l.escalated.add band }
    else if isAutoCleared c then { l with autoCleared := l.autoCleared.add band }
    else l

def raised (l : Ladder) (x : Option Band) : Nat :=
  l.escalated.number x + l.needsHuman.number x + (l.cases.number x - l.needsHuman.number x -
    l.escalated.number x - l.autoCleared.number x - l.policyClosed.number x)

def escalatedStage (l : Ladder) : Tally := ⟨l.raised none, fun band => l.raised (some band)⟩

end Ladder

/-! ### The report -/

/-- What `read_window` says of the alerts; a band may be missing or below zero. -/
structure Counters where
  available : Bool
  ingested : Option (Band → Option Int)
  clustered : Option (Band → Option Int)
  suppressed : Int
  ignored : Int

/-- `merge_bands` with nothing, and its sum. -/
def mergeBands (counts : Option (Band → Option Int)) : Tally :=
  let bands := fun band => ((counts.bind fun f => f band).getD 0).toNat
  ⟨(severityBands.map bands).sum, bands⟩

structure Stage where
  key : String
  label : String
  source : String
  deterministic : Bool
  /-- absent while the counters warm up -/
  counts : Option Tally

/-- The reductions are kept as the two numbers that they divide. -/
structure NoiseReduction where
  windowHours : Nat
  bands : List Band
  stages : List Stage
  drops : Int × Int
  overall : Option (Nat × Nat)
  humanReduction : Option (Nat × Nat)

/-- `_reduction`: none where there is nothing to reduce. -/
def reduction (numer denom : Nat) : Option (Nat × Nat) :=
  if denom = 0 then none else some (numer, denom)

section Funnel

-- `_window_filter` for some hours and some instant, and `band_of_case` for some preferences

variable (inWindow : Nat → Case → Bool) (band : Case → Band)

def ladderOf (cases : List Case) : Ladder := cases.foldl (fun l c => l.count (band c) c) {}

def buildNoiseReduction (cases : List Case) (counters : Counters) (windowHours : Int) :
    NoiseReduction :=
  let hours := windowHours.toNat
  let l := ladderOf band (cases.filter (inWindow hours))
  let ingested := if counters.available then some (mergeBands counters.ingested) else none
  let clustered := if counters.available then some (mergeBands counters.clustered) else none
  { windowHours := hours
    bands := severityBands
    stages :=
      [⟨"ingested", "Alerts ingested", "counters", true, ingested⟩,
       ⟨"clustered", "After clustering", "counters", true, clustered⟩,
       ⟨"cases", "Cases opened", "cases", false, some l.cases⟩,
       ⟨"auto_cleared", "Auto-cleared by AI", "cases", true, some l.autoCleared⟩,
       ⟨"escalated", "Escalated", "cases", true, some l.escalatedStage⟩,
       ⟨"needs_human", "Needs a human", "cases", true, some l.needsHuman⟩,
       ⟨"closed", "Closed by human", "cases", false, some l.closed⟩,
       ⟨"policy_closed", "Closed by analyst policy", "cases", true, some l.policyClosed⟩]
    drops := (counters.suppressed, counters.ignored)
    overall := ingested.bind fun t => reduction l.needsHuman.total t.total
    humanReduction := reduction l.needsHuman.total l.cases.total }

end Funnel

def NoiseReduction.counts (r : NoiseReduction) (key : String) : Tally :=
  ((r.stages.find? fun stage => stage.key = key).bind fun stage => stage.counts).getD {}

/-- **The account of a funnel**, in total and in every band. -/
structure Accounts (r : NoiseReduction) : Prop where
  outcomes : ∀ x, (r.counts "auto_cleared").number x + (r.counts "escalated").number x +
    (r.counts "policy_closed").number x = (r.counts "cases").number x
  sums : ∀ stage ∈ r.stages, stage.source = "cases" → ∃ t, stage.counts = some t ∧
    (severityBands.map t.bands).sum = t.total
  closed : ∀ x, (r.counts "closed").number x ≤ (r.counts "escalated").number x

/-! ### One pass -/

def Within (band : Band) (x : Option Band) : Prop := ∀ b ∈ x, b = band

instance (band : Band) (x : Option Band) : Decidable (Within band x) :=
  inferInstanceAs (Decidable (∀ b ∈ x, b = band))

theorem number_add (t : Tally) (band : Band) (x : Option Band) :
    (t.add band).number x = t.number x + if Within band x then 1 else 0 := by
  cases x with
  | none => simp [Tally.number, Tally.add, Within]
  | some b => by_cases hb : b = band <;> simp [Tally.number, Tally.add, Within, hb]

def Tally.Summed (t : Tally) : Prop := (severityBands.map t.bands).sum = t.total

theorem Tally.Summed.add {t : Tally} (h : t.Summed) (band : Band) : (t.add band).Summed := by
  simp only [Summed, severityBands, map_cons, map_nil, sum_cons,
    sum_nil] at h
  cases band <;> simp [Summed, severityBands, Tally.add] <;> omega

structure Kept (l : Ladder) : Prop where
  apart : ∀ x, l.needsHuman.number x + l.escalated.number x + l.autoCleared.number x +
    l.policyClosed.number x ≤ l.cases.number x
  closed : ∀ x, l.closed.number x + l.autoCleared.number x + l.policyClosed.number x ≤
    l.cases.number x
  cases : l.cases.Summed
  needsHuman : l.needsHuman.Summed
  escalated : l.escalated.Summed
  autoCleared : l.autoCleared.Summed
  closedSummed : l.closed.Summed
  policyClosed : l.policyClosed.Summed

variable {c : Case}

theorem not_autoCleared (h : isHumanClosed c = true) : isAutoCleared c = false := by
  simp only [isHumanClosed, Bool.and_eq_true, decide_eq_true_eq] at h
  simp [isAutoCleared, h.2]

theorem Kept.count {l : Ladder} (h : Kept l) (band : Band) (c : Case) : Kept (l.count band c) := by
  obtain ⟨hapart, hclosed, hc, hn, he, ha, hcl, hp⟩ := h
  simp only [Ladder.count]
  by_cases hpolicy : closedByPolicy c = true
  · rw [if_pos hpolicy]
    refine ⟨fun x => ?_, fun x => ?_, hc.add _, hn, he, ha, hcl, hp.add _⟩
    · have := hapart x
      simp only [number_add]
      omega
    · have := hclosed x
      simp only [number_add]
      omega
  · rw [if_neg hpolicy]
    by_cases hhuman : isHumanClosed c = true
    · -- the ladder goes on with a case that is counted as closed already
      simp only [hhuman, if_true, not_autoCleared hhuman, Bool.false_eq_true, if_false]
      split
      · refine ⟨fun x => ?_, fun x => ?_, hc.add _, hn.add _, he, ha, hcl.add _, hp⟩
        all_goals have := hapart x; have := hclosed x; simp only [number_add]; omega
      · split
        · refine ⟨fun x => ?_, fun x => ?_, hc.add _, hn, he.add _, ha, hcl.add _, hp⟩
          all_goals have := hapart x; have := hclosed x; simp only [number_add]; omega
        · refine ⟨fun x => ?_, fun x => ?_, hc.add _, hn, he, ha, hcl.add _, hp⟩
          all_goals have := hapart x; have := hclosed x; simp only [number_add]; omega
    · rw [if_neg hhuman]
      split
      · refine ⟨fun x => ?_, fun x => ?_, hc.add _, hn.add _, he, ha, hcl, hp⟩
        all_goals have := hapart x; have := hclosed x; simp only [number_add]; omega
      · split
        · refine ⟨fun x => ?_, fun x => ?_, hc.add _, hn, he.add _, ha, hcl, hp⟩
          all_goals have := hapart x; have := hclosed x; simp only [number_add]; omega
        · split
          · refine ⟨fun x => ?_, fun x => ?_, hc.add _, hn, he, ha.add _, hcl, hp⟩
            all_goals have := hapart x; have := hclosed x; simp only [number_add]; omega
          · refine ⟨fun x => ?_, fun x => ?_, hc.add _, hn, he, ha, hcl, hp⟩
            all_goals have := hapart x; have := hclosed x; simp only [number_add]; omega

variable {band : Case → Band}

theorem kept_ladderOf (cases : List Case) : Kept (ladderOf band cases) := by
  induction cases using List.reverseRecOn with
  | nil =>
    refine ⟨fun x => ?_, fun x => ?_, rfl, rfl, rfl, rfl, rfl, rfl⟩
    · cases x <;> exact Nat.le_refl 0
    · cases x <;> exact Nat.le_refl 0
  | append_singleton cases c ih =>
    have hstep : ladderOf band (cases ++ [c]) = (ladderOf band cases).count (band c) c := by
      simp [ladderOf]
    rw [hstep]
    exact ih.count _ _

theorem policyClosed_count (l : Ladder) (b : Band) (c : Case) :
    (l.count b c).policyClosed = if closedByPolicy c then l.policyClosed.add b
      else l.policyClosed := by
  simp only [Ladder.count]
  split_ifs <;> rfl

theorem policyClosed_ladderOf (cases : List Case) (x : Option Band) :
    (ladderOf band cases).policyClosed.number x =
      cases.countP fun c => closedByPolicy c && decide (Within (band c) x) := by
  induction cases using List.reverseRecOn with
  | nil => cases x <;> rfl
  | append_singleton cases c ih =>
    have hstep : ladderOf band (cases ++ [c]) = (ladderOf band cases).count (band c) c := by
      simp [ladderOf]
    rw [hstep, policyClosed_count, countP_append, ← ih]
    by_cases hpolicy : closedByPolicy c = true
    · by_cases hx : Within (band c) x <;> simp [hpolicy, number_add, hx]
    · simp [hpolicy]

theorem accounts (inWindow : Nat → Case → Bool) (cases : List Case) (counters : Counters)
    (windowHours : Int) : Accounts (buildNoiseReduction inWindow band cases counters
      windowHours) := by
  have hkept := @kept_ladderOf band (cases.filter (inWindow windowHours.toNat))
  generalize hl : ladderOf band (cases.filter (inWindow windowHours.toNat)) = l at hkept
  have hraised : ∀ x, l.escalatedStage.number x = l.raised x := by
    rintro (_ | b) <;> rfl
  refine ⟨fun x => ?_, fun stage hstage hsource => ?_, fun x => ?_⟩
  · have := hkept.apart x
    simp [NoiseReduction.counts, buildNoiseReduction, hl, hraised, Ladder.raised]
    omega
  · have hescalated : (severityBands.map l.escalatedStage.bands).sum = l.escalatedStage.total := by
      have hapart := hkept.apart
      have hc := hkept.cases
      have hn := hkept.needsHuman
      have he := hkept.escalated
      have ha := hkept.autoCleared
      have hp := hkept.policyClosed
      simp only [Option.forall, Tally.number] at hapart
      simp only [Tally.Summed, severityBands, map_cons, map_nil, sum_cons,
        sum_nil] at hc hn he ha hp
      have h1 := hapart.2 .critical
      have h2 := hapart.2 .high
      have h3 := hapart.2 .medium
      have h4 := hapart.2 .low
      have h5 := hapart.2 .info
      simp only [severityBands, map_cons, map_nil, sum_cons, sum_nil,
        Ladder.escalatedStage, Ladder.raised, Tally.number]
      omega
    simp only [buildNoiseReduction, hl, mem_cons, not_mem_nil, or_false] at hstage
    rcases hstage with rfl | rfl | rfl | rfl | rfl | rfl | rfl | rfl
    · exact absurd hsource (by simp)
    · exact absurd hsource (by simp)
    · exact ⟨_, rfl, hkept.cases⟩
    · exact ⟨_, rfl, hkept.autoCleared⟩
    · exact ⟨_, rfl, hescalated⟩
    · exact ⟨_, rfl, hkept.needsHuman⟩
    · exact ⟨_, rfl, hkept.closedSummed⟩
    · exact ⟨_, rfl, hkept.policyClosed⟩
  · have := hkept.apart x
    have := hkept.closed x
    simp [NoiseReduction.counts, buildNoiseReduction, hl, hraised, Ladder.raised]
    omega

/-- The record of a case is marked as closed by a policy while the ghost says so. -/
def DeclaredRight (declared : Bool) (c : Case) : Prop :=
  closedByPolicy c = declared ∧ (closedByPolicy c = true → c.status = .closed)

theorem declared_of_reaches {s : Desk} (h : deskMachine.Reaches Machine.anyStep s) :
    s.Keeps DeclaredRight fun c => closedByPolicy c = false := by
  refine Machine.invariant (I := Desk.Keeps DeclaredRight fun c => closedByPolicy c = false) ?_ ?_ h
  · rintro s rfl
    exact keeps_start
  · intro s e t hs _ hstep
    cases stepped_of_step hstep with
    | found hopen =>
      refine hs.take fun id c hc => ?_
      obtain ⟨rfl, hread⟩ := Prod.mk.inj (Option.some.inj hc)
      by_contra hclosed
      have hterminal := hopen c hread
      rw [(hs.stored _ c hread).2 (by simpa using hclosed)] at hterminal
      cases hterminal
    | finished => exact hs.take fun _ _ h => by cases h
    | saved existing c hfound hc =>
      apply hs.put
      rcases written_cases hc with ⟨hdeclares, hby, -, hstatus⟩ | ⟨hdeclares, hby, -⟩ |
        ⟨hdeclares, c', rfl, hby, -, -⟩
      · exact ⟨by simp [closedByPolicy, hby, hdeclares], fun _ => hstatus⟩
      · have hnone : closedByPolicy c = false := by simpa [closedByPolicy] using hby
        exact ⟨hnone.trans hdeclares.symm, by simp [hnone]⟩
      · have hsame : closedByPolicy c = closedByPolicy c' := by simp [closedByPolicy, hby]
        have hnone := hsame.trans (hs.held _ _ c' hfound)
        exact ⟨hnone.trans hdeclares.symm, by simp [hnone]⟩
    | analyst c' c _ hperform =>
      have hnone : closedByPolicy c = false := by simp [closedByPolicy, (performed hperform).1]
      exact hs.put ⟨hnone, by simp [hnone]⟩

end AgenticKibana.Dispositions
