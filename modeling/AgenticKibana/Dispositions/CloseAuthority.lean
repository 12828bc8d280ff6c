import AgenticKibana.Dispositions.NoiseFunnel
import AgenticKibana.Library.Doubles

/-!
# Who may close a case

`decide` weighs the verdict of an investigation against the operator's policy, and
`CaseManager.apply` writes its decision on the case.  Everything else that closes is a declared
policy or an analyst's own action.  Confidences and scores are finite numbers; they are compared,
never computed with, but for one bound.
-/

namespace AgenticKibana.Dispositions

open AgenticKibana.Library
open CaseIds (Verdict)

structure VerdictAutoClose where
  enabled : Bool
  minConfidence : ℚ
  maxRiskScore : ℚ
  objectionWindowMinutes : Nat
  confidence_bounds : 0 ≤ minConfidence ∧ minConfidence ≤ 1
  risk_bounds : 0 ≤ maxRiskScore ∧ maxRiskScore ≤ 100

/-- The policy holds an entry for `needs_human` too; nothing reads it. -/
structure AutoClosePolicy where
  falsePositive : VerdictAutoClose
  truePositive : VerdictAutoClose
  needsHuman : VerdictAutoClose

structure Preferences where
  autoClose : AutoClosePolicy
  escalationConfidence : ℚ
  criticalSeverity : ℚ

/-- The formats `f"{x:.2f}"`, `f"{x:.1f}"` and `f"{x}"` of a number, and the time that is some
minutes ahead. -/
structure Clerk where
  fixed : Nat → ℚ → String
  shown : ℚ → String
  ahead : Nat → String

structure Decision where
  status : CaseStatus
  decisionBy : DecisionBy
  objectionWindowExpiresAt : Option String
  escalate : Bool
  rationale : String

/-- `_entry_for`. -/
def AutoClosePolicy.entryFor (policy : AutoClosePolicy) : Option Verdict → Option VerdictAutoClose
  | some .falsePositive => some policy.falsePositive
  | some .truePositive => some policy.truePositive
  | some .needsHuman | none => none

def VerdictAutoClose.cleared (entry : VerdictAutoClose) (confidence riskScore : ℚ) : Bool :=
  entry.minConfidence ≤ confidence && riskScore ≤ entry.maxRiskScore

/-- A true positive that stays open is flagged where the model is sure of it or the score is high.
-/
def Preferences.flags (prefs : Preferences) (confidence riskScore : ℚ) : Option Verdict → Bool
  | some .truePositive => prefs.escalationConfidence ≤ confidence ||
      Doubles.toDouble (prefs.criticalSeverity * 10) ≤ riskScore
  | _ => false

def verdictValue (verdict : Option Verdict) : String :=
  String.ofList (CaseIds.verdictText verdict)

def CaseManager.decide (clerk : Clerk) (verdict : Option Verdict) (confidence riskScore : ℚ)
    (prefs : Preferences) : Decision :=
  let escalate := prefs.flags confidence riskScore verdict
  match (prefs.autoClose.entryFor verdict).filter VerdictAutoClose.enabled with
  | some entry =>
    if entry.cleared confidence riskScore then
      { status := .closed
        decisionBy := .agent
        objectionWindowExpiresAt := some (clerk.ahead entry.objectionWindowMinutes)
        escalate := false
        rationale :=
          verdictValue verdict ++ " auto-closed: confidence " ++ clerk.fixed 2 confidence ++
          " >= " ++ clerk.shown entry.minConfidence ++ " and risk " ++ clerk.fixed 1 riskScore ++
          " <= " ++ clerk.shown entry.maxRiskScore ++ "; objection window " ++
          toString entry.objectionWindowMinutes ++ "m." }
    else
      { status := .needsHuman
        decisionBy := .system
        objectionWindowExpiresAt := none
        escalate
        rationale := verdictValue verdict ++
          " routed to human: did not clear the auto-close bar (confidence " ++
          clerk.fixed 2 confidence ++ " vs " ++ clerk.shown entry.minConfidence ++ ", risk " ++
          clerk.fixed 1 riskScore ++ " vs " ++ clerk.shown entry.maxRiskScore ++ ")." }
  | none =>
    { status := .needsHuman
      decisionBy := .system
      objectionWindowExpiresAt := none
      escalate
      rationale := match verdict with
        | some .truePositive => "True positive routed to human: tp auto-close disabled."
        | some .falsePositive => "False positive routed to human: fp auto-close disabled."
        | _ => "No confident close decision; routing to human (fail-safe)." }

/-! ### The decision on the case -/

inductive Disposition where
  | truePositive
  | falsePositive
  | benign
  | suspicious
  | duplicate
  | undetermined

/-- `_VERDICT_TO_DISPOSITION`. -/
def Disposition.ofVerdict : Verdict → Disposition
  | .truePositive => .truePositive
  | .falsePositive => .falsePositive
  | .needsHuman => .undetermined

structure StatusHistoryEntry where
  fromStatus : CaseStatus
  toStatus : CaseStatus
  decisionBy : DecisionBy
  time : String
  reason : String

/-- A stored case, with what `apply` reads and writes. -/
structure CaseRecord where
  ruleIds : List Text
  verdict : Option Verdict
  confidence : ℚ
  riskScore : ℚ
  status : CaseStatus
  decisionBy : Option DecisionBy
  analystPolicy : Option (List Text)
  disposition : Option Disposition
  escalationLevel : Int
  objectionWindowExpiresAt : Option String
  updatedAt : String
  statusHistory : List StatusHistoryEntry
  history : List (String × Decision)

def CaseRecord.toCase (r : CaseRecord) : Case where
  ruleIds := r.ruleIds
  verdict := r.verdict
  status := r.status
  decisionBy := r.decisionBy
  analystPolicy := r.analystPolicy
  escalationLevel := r.escalationLevel
  statusHistory := r.statusHistory.map StatusHistoryEntry.toStatus

/-- `CaseManager.apply`; its assertion never fails, since `decide` closes no other verdict. -/
def CaseRecord.apply (r : CaseRecord) (clerk : Clerk) (prefs : Preferences) (now : String) :
    CaseRecord :=
  let decision := CaseManager.decide clerk r.verdict r.confidence r.riskScore prefs
  let escalated := decision.escalate && decision.status ≠ .closed
  let status := if escalated then .escalated else decision.status
  { r with
    status
    decisionBy := some decision.decisionBy
    objectionWindowExpiresAt := decision.objectionWindowExpiresAt
    updatedAt := now
    escalationLevel :=
      if escalated && decide (r.escalationLevel < 1) then 1 else r.escalationLevel
    disposition := r.disposition <|> r.verdict.map Disposition.ofVerdict
    statusHistory :=
      if status = r.status then r.statusHistory
      else r.statusHistory ++ [⟨r.status, status, decision.decisionBy, now, decision.rationale⟩]
    history := r.history ++ [(now, decision)] }

/-- The bar of the verdict is cleared. -/
def Preferences.clears (prefs : Preferences) (confidence riskScore : ℚ)
    (verdict : Option Verdict) : Bool :=
  (prefs.autoClose.entryFor verdict).any fun entry =>
    entry.enabled && entry.cleared confidence riskScore

/-- What the desk is told of the decision. -/
def Preferences.ruling (prefs : Preferences) (confidence riskScore : ℚ) (verdict : Verdict) :
    Case.Ruling where
  clears := prefs.clears confidence riskScore (some verdict)
  flagged := prefs.flags confidence riskScore (some verdict)

theorem decide_spec (clerk : Clerk) (prefs : Preferences) (verdict : Option Verdict)
    (confidence riskScore : ℚ) :
    let decision := CaseManager.decide clerk verdict confidence riskScore prefs
    let clears := prefs.clears confidence riskScore verdict
    decision.status = (if clears then .closed else .needsHuman) ∧
      decision.decisionBy = (if clears then .agent else .system) ∧
      decision.escalate = (!clears && prefs.flags confidence riskScore verdict) := by
  unfold CaseManager.decide Preferences.clears
  cases prefs.autoClose.entryFor verdict with
  | none => simp
  | some entry =>
    cases henabled : entry.enabled with
    | false => simp [Option.filter, henabled]
    | true =>
      cases hcleared : entry.cleared confidence riskScore <;>
        simp [Option.filter, henabled, hcleared]

theorem StatusHistoryEntry.map_record (r : CaseRecord) (status : CaseStatus) (by' : DecisionBy)
    (now reason : String) :
    (if status = r.status then r.statusHistory
      else r.statusHistory ++ [⟨r.status, status, by', now, reason⟩]).map
        StatusHistoryEntry.toStatus =
    Case.record (r.statusHistory.map StatusHistoryEntry.toStatus) r.status status := by
  unfold Case.record
  split <;> simp

/-- **`apply` does to a case what the desk does**, with the ruling of the policy. -/
theorem toCase_apply (r : CaseRecord) (clerk : Clerk) (prefs : Preferences) (now : String)
    {verdict : Verdict} (hverdict : r.verdict = some verdict) :
    (r.apply clerk prefs now).toCase =
      r.toCase.applied verdict (prefs.ruling r.confidence r.riskScore verdict) := by
  obtain ⟨hstatus, hby, hescalate⟩ := decide_spec clerk prefs r.verdict r.confidence r.riskScore
  have hlevel : ∀ level : Int, (if level < 1 then 1 else level) = max level 1 := by
    intro level
    omega
  simp only [CaseRecord.apply, CaseRecord.toCase, Case.applied, StatusHistoryEntry.map_record,
    Preferences.ruling]
  generalize CaseManager.decide clerk r.verdict r.confidence r.riskScore prefs = decision at *
  rw [hverdict] at hstatus hby hescalate
  cases verdict with
  | needsHuman =>
    have hnever : prefs.clears r.confidence r.riskScore (some .needsHuman) = false := rfl
    simp_all [Preferences.flags]
  | falsePositive =>
    rcases Bool.eq_false_or_eq_true (prefs.clears r.confidence r.riskScore
      (some .falsePositive)) with
      hclears | hclears <;> simp_all [Preferences.flags]
  | truePositive =>
    rcases Bool.eq_false_or_eq_true (prefs.clears r.confidence r.riskScore
      (some .truePositive)) with
      hclears | hclears
    · simp_all
    · rcases Bool.eq_false_or_eq_true (prefs.flags r.confidence r.riskScore
        (some .truePositive)) with
        hflags | hflags <;> simp_all

/-! ### Runs of the desk -/

/-- The case that an event writes. -/
def Event.written : Event → Option String
  | .save _ caseId _ | .analyst caseId _ => some caseId
  | .find _ _ | .finish _ => none

def Event.closes : Event → Bool
  | .save _ _ (.policy force _ _) => !force
  | .save _ _ (.investigate _ _ ruling) => ruling.clears
  | .analyst _ action => action = .close || action = .confirmFp
  | _ => false

/-- Of the events that write the case, `e` is the last, and `before` is what came before it. -/
def WrittenLast (id : String) (e : Event) (before es : List Event) : Prop :=
  ∃ after, es = before ++ e :: after ∧ ∀ x ∈ after, x.written ≠ some id

/-- Every investigation is ruled by some policy, on some confidence and score. -/
def Ruled (_ : Desk) : Event → Prop
  | .save _ _ (.investigate _ verdict ruling) =>
    ∃ (prefs : Preferences) (confidence riskScore : ℚ),
      ruling = prefs.ruling confidence riskScore verdict
  | _ => True

/-- The agent closed the case: its verdict has an entry in the policy, which is enabled and whose
bars the investigation met. -/
def ClosedByAgent (id : String) (c : Case) (es : List Event) : Prop :=
  ∃ (verdict : Verdict) (prefs : Preferences) (confidence riskScore : ℚ) (entry : VerdictAutoClose)
    (run : Nat) (before : List Event),
    c.verdict = some verdict ∧ prefs.autoClose.entryFor verdict = some entry ∧
    entry.enabled = true ∧ entry.minConfidence ≤ confidence ∧ riskScore ≤ entry.maxRiskScore ∧
    WrittenLast id (.save run id
      (.investigate c.ruleIds verdict (prefs.ruling confidence riskScore verdict))) before es

def Event.turns (run : Nat) : Event → Bool
  | .find r _ | .finish r => r = run
  | _ => false

/-- When the run last turned to a case, this was stored under the id. -/
def FoundIn (run : Nat) (id : String) (existing : Option Case) (es : List Event) : Prop :=
  ∃ before after s, es = before ++ .find run id :: after ∧ (∀ e ∈ after, e.turns run = false) ∧
    deskMachine.run emptyDesk before = some s ∧ s.cases.get? id = existing

/-- A policy closed the case: its run had found no case, or an open one that nobody had
investigated and no analyst decided. -/
def ClosedByPolicy (id : String) (c : Case) (es : List Event) : Prop :=
  ∃ policies run existing before, c.analystPolicy = some policies ∧
    WrittenLast id (.save run id (.policy false c.ruleIds policies)) before es ∧
    FoundIn run id existing before ∧ ∀ c0, existing = some c0 →
      c0.verdict = none ∧ c0.decisionBy ≠ some .analyst ∧ c0.status.terminal = false

structure Authorised (id : String) (c : Case) (es : List Event) : Prop where
  agent : c.decisionBy = some .agent → c.status = .closed ∧ ClosedByAgent id c es
  policy : c.decisionBy = some .analystPolicy → c.status = .closed ∧ ClosedByPolicy id c es
  others : c.decisionBy = some .system ∨ c.decisionBy = none → c.status.terminal = false
  closed : c.status = .closed → ∃ e ∈ es, e.written = some id ∧ e.closes

section Runs

variable {s t : Desk} {e : Event} {es : List Event} {id : String} {c : Case}

variable {prefs : Preferences} {confidence riskScore : ℚ}

theorem clears_iff {verdict : Option Verdict} : prefs.clears confidence riskScore verdict = true ↔
      ∃ entry, prefs.autoClose.entryFor verdict = some entry ∧ entry.enabled = true ∧
        entry.minConfidence ≤ confidence ∧ riskScore ≤ entry.maxRiskScore := by
  simp [Preferences.clears, VerdictAutoClose.cleared, Option.any_eq_true]

variable {verdict : Verdict}

theorem applied_of_clears (h : prefs.clears confidence riskScore (some verdict) = true) :
    (c.applied verdict (prefs.ruling confidence riskScore verdict)).status = .closed ∧
    (c.applied verdict (prefs.ruling confidence riskScore verdict)).decisionBy = some .agent := by
  cases verdict with
  | needsHuman => cases h
  | falsePositive | truePositive => simp [Case.applied, Preferences.ruling, h]

theorem applied_of_not_clears {ruling : Case.Ruling} (h : ruling.clears = false) :
    (c.applied verdict ruling).status.terminal = false ∧
    (c.applied verdict ruling).decisionBy = some .system := by
  cases verdict with
  | needsHuman => simp [Case.applied, CaseStatus.terminal]
  | falsePositive => simp [Case.applied, h, CaseStatus.terminal]
  | truePositive =>
    cases hflagged : ruling.flagged <;> simp [Case.applied, h, hflagged, CaseStatus.terminal]

theorem writtenLast_self (id : String) (e : Event) (es : List Event) :
    WrittenLast id e es (es ++ [e]) :=
  ⟨[], rfl, by simp⟩

theorem WrittenLast.other {e0 : Event} {before : List Event} (h : WrittenLast id e0 before es)
    (he : e.written ≠ some id) : WrittenLast id e0 before (es ++ [e]) := by
  obtain ⟨after, rfl, hafter⟩ := h
  refine ⟨after ++ [e], by simp, fun x hx => ?_⟩
  rcases List.mem_append.mp hx with hx | hx
  · exact hafter x hx
  · rwa [List.mem_singleton.mp hx]

theorem Authorised.other (h : Authorised id c es) (he : e.written ≠ some id) :
    Authorised id c (es ++ [e]) := by
  obtain ⟨hagent, hpolicy, hothers, hclosed⟩ := h
  refine ⟨fun hby => ?_, fun hby => ?_, hothers, fun hc => ?_⟩
  · obtain ⟨hstatus, verdict, prefs, confidence, riskScore, entry, run, before, h1, h2, h3, h4, h5,
      hlast⟩ := hagent hby
    exact ⟨hstatus, verdict, prefs, confidence, riskScore, entry, run, before, h1, h2, h3, h4, h5,
      hlast.other he⟩
  · obtain ⟨hstatus, policies, run, existing, before, hpolicies, hlast, hfound⟩ := hpolicy hby
    exact ⟨hstatus, policies, run, existing, before, hpolicies, hlast.other he, hfound⟩
  · obtain ⟨e', he', hclose⟩ := hclosed hc
    exact ⟨e', List.mem_append_left _ he', hclose⟩

/-- A record that a run may hold: an open one, with no close of the agent's or a policy's. -/
structure Held (c : Case) : Prop where
  unclosed : c.status.terminal = false
  undecided : c.decisionBy ≠ some .agent ∧ c.decisionBy ≠ some .analystPolicy

theorem held_of_authorised (h : Authorised id c es) (hopen : c.status.terminal = false) :
    Held c := by
  have hnot : c.status ≠ .closed := by
    intro hc
    simp [hc, CaseStatus.terminal] at hopen
  exact ⟨hopen, fun hby => hnot (h.agent hby).1, fun hby => hnot (h.policy hby).1⟩

theorem FoundIn.other {run : Nat} {existing : Option Case} (h : FoundIn run id existing es)
    (he : e.turns run = false) : FoundIn run id existing (es ++ [e]) := by
  obtain ⟨before, after, s, rfl, hafter, hs⟩ := h
  refine ⟨before, after ++ [e], s, by simp, fun x hx => ?_, hs⟩
  rcases List.mem_append.mp hx with hx | hx
  · exact hafter x hx
  · rwa [List.mem_singleton.mp hx]

variable {run : Nat}

theorem authorised_written {work : Case.Work} {existing : Option Case}
    (h : work.written existing = some c) (hruled : Ruled s (.save run id work))
    (hfound : FoundIn run id existing es) (hheld : ∀ c', existing = some c' → Held c') :
    Authorised id c (es ++ [.save run id work]) := by
  have hlast := writtenLast_self id (.save run id work) es
  cases work with
  | policy force ruleIds policies =>
    simp only [Case.Work.written, Case.closeByPolicy] at h
    split at h
    · cases h
    · next hguard =>
      have hforce : force = false := by simp_all
      subst hforce
      cases h
      refine ⟨by simp, fun _ => ⟨rfl, policies, run, existing, es, rfl, hlast, hfound, ?_⟩,
        by simp, fun _ => ⟨_, List.mem_append_right _ (List.mem_singleton_self _), rfl, rfl⟩⟩
      rintro c0 rfl
      simp only [Option.any_some, Bool.or_false, Bool.or_eq_true, not_or, decide_eq_true_eq,
        Bool.not_eq_true, Option.isSome_eq_false_iff, Option.isNone_iff_eq_none] at hguard
      exact ⟨hguard.1, hguard.2, (hheld c0 rfl).unclosed⟩
  | investigate ruleIds verdict ruling =>
    cases h
    obtain ⟨prefs, confidence, riskScore, rfl⟩ := hruled
    rcases Bool.eq_false_or_eq_true (prefs.clears confidence riskScore (some verdict)) with
      hclears | hclears
    · obtain ⟨hstatus, hby⟩ := applied_of_clears (c := { ruleIds, verdict := some verdict }) hclears
      obtain ⟨entry, hentry, henabled, hconfidence, hrisk⟩ := clears_iff.mp hclears
      refine ⟨fun _ => ⟨hstatus, ?_⟩, by simp [hby], by simp [hby], fun _ => ?_⟩
      · exact ⟨verdict, prefs, confidence, riskScore, entry, run, es, rfl, hentry, henabled,
          hconfidence, hrisk, hlast⟩
      · exact ⟨_, List.mem_append_right _ (List.mem_singleton_self _), rfl, hclears⟩
    · obtain ⟨hstatus, hby⟩ := @applied_of_not_clears { ruleIds, verdict := some verdict } verdict
        (prefs.ruling confidence riskScore verdict) hclears
      refine ⟨by simp [hby], by simp [hby], fun _ => hstatus, fun h => ?_⟩
      simp [h, CaseStatus.terminal] at hstatus
  | fail | candidate =>
    cases h
    exact ⟨by simp, by simp, by simp [CaseStatus.terminal], by simp⟩
  | attach ruleIds =>
    obtain ⟨c', hc', rfl⟩ := Option.map_eq_some_iff.mp h
    obtain ⟨hterminal, hagent, hpolicy⟩ := hheld c' hc'
    refine ⟨fun hby => absurd hby hagent, fun hby => absurd hby hpolicy, fun _ => hterminal,
      fun hclosed => ?_⟩
    have hclosed : c'.status = .closed := hclosed
    simp [hclosed, CaseStatus.terminal] at hterminal

variable {action : Case.Action} {c' : Case}

theorem authorised_performed (h : c'.perform action = some c) (hold : Authorised id c' es) :
    Authorised id c (es ++ [.analyst id action]) := by
  simp only [Case.perform] at h
  split at h
  case isFalse => cases h
  case isTrue hguard =>
    cases h
    refine ⟨by simp, by simp, by simp, fun hclosed => ?_⟩
    by_cases hcloses : action = .close ∨ action = .confirmFp
    · exact ⟨_, List.mem_append_right _ (List.mem_singleton_self _), rfl, by simpa [Event.closes]⟩
    · -- no other action moves a case there, so that it was closed before
      have hbefore : c'.status = .closed := by
        by_contra hopen
        cases action <;> simp_all [Case.Action.target, Case.guardTransition]
      obtain ⟨e, he, hid, hcloses⟩ := hold.closed hbefore
      exact ⟨e, List.mem_append_left _ he, hid, hcloses⟩

/-- What the events of a run say of the stored cases, and of those that the runs hold. -/
structure Known (es : List Event) (s : Desk) : Prop where
  stored : ∀ id c, s.cases.get? id = some c → Authorised id c es
  held : ∀ run id existing, s.found run = some (id, existing) →
    FoundIn run id existing es ∧ ∀ c, existing = some c → Held c

theorem Known.put {declared : Bool} (h : Known es s) (hwritten : e.written = some id)
    (hturns : ∀ run, e.turns run = false) (hnew : Authorised id c (es ++ [e])) :
    Known (es ++ [e]) (s.put id c declared) := by
  refine ⟨fun i c' hc' => ?_, fun run i existing hfound => ?_⟩
  · by_cases hi : i = id
    · subst hi
      simp only [Desk.put, Dict.get?_set_self, Option.some.injEq] at hc'
      exact hc' ▸ hnew
    · simp only [Desk.put, Dict.get?_set_of_ne _ _ hi] at hc'
      refine (h.stored i c' hc').other ?_
      rw [hwritten]
      exact fun heq => hi (Option.some.inj heq).symm
  · obtain ⟨hin, hheld⟩ := h.held run i existing hfound
    exact ⟨hin.other (hturns run), hheld⟩

theorem Known.take {found : Option (String × Option Case)} (h : Known es s)
    (hwritten : e.written = none) (hturns : ∀ r, r ≠ run → e.turns r = false)
    (hnew : ∀ id existing, found = some (id, existing) →
      FoundIn run id existing (es ++ [e]) ∧ ∀ c, existing = some c → Held c) :
    Known (es ++ [e]) (s.take run found) := by
  refine ⟨fun i c hc => (h.stored i c hc).other (by simp [hwritten]), fun r i existing hfound => ?_⟩
  by_cases hr : r = run
  · subst hr
    exact hnew i existing (by simpa [Desk.take] using hfound)
  · simp only [Desk.take, Function.update_of_ne hr] at hfound
    obtain ⟨hin, hheld⟩ := h.held r i existing hfound
    exact ⟨hin.other (hturns r hr), hheld⟩

theorem known_of_run (hruled : deskMachine.Throughout Ruled emptyDesk es)
    (hrun : deskMachine.run emptyDesk es = some s) : Known es s := by
  induction es using List.reverseRecOn generalizing s with
  | nil =>
    cases hrun
    exact ⟨fun _ _ h => by simp [emptyDesk] at h, fun _ _ _ h => by cases h⟩
  | append_singleton es e ih =>
    rw [Machine.run_append, Option.bind_eq_some_iff] at hrun
    obtain ⟨s', hs', hstep⟩ := hrun
    obtain ⟨hbefore, hthis, -⟩ := (Machine.throughout_append hs').mp hruled
    have hknown := ih hbefore hs'
    obtain ⟨t, hstep, ht⟩ := Machine.run_cons.mp hstep
    cases ht
    cases stepped_of_step hstep with
    | @found run i hopen =>
      refine hknown.take rfl (fun r hr => by simpa [Event.turns] using hr.symm) fun id'
        existing h => ?_
      obtain ⟨rfl, rfl⟩ := Prod.mk.inj (Option.some.inj h)
      refine ⟨⟨es, [], s', rfl, by simp, hs', rfl⟩, fun c hc => ?_⟩
      exact held_of_authorised (hknown.stored _ c hc) (hopen c hc)
    | finished =>
      exact hknown.take rfl (fun r hr => by simpa [Event.turns] using hr.symm) fun _ _
        h => by cases h
    | saved existing c hfound hwritten =>
      obtain ⟨hin, hheld⟩ := hknown.held _ _ existing hfound
      exact hknown.put rfl (fun _ => rfl) (authorised_written hwritten hthis hin hheld)
    | analyst c' c hc' hperform =>
      exact hknown.put rfl (fun _ => rfl) (authorised_performed hperform (hknown.stored _ c' hc'))

/-- **Nothing closes a case but an investigation that met the bars of the policy, a declared policy
whose run had found nothing that somebody investigated or decided, and an analyst**: in every run
from the empty desk whose investigations are ruled by policies, a case that the agent or a policy
decided is closed and was written last by that decision, none that the system decided is terminal,
and every closed case was closed by some event of the run. -/
theorem close_authority (hruled : deskMachine.Throughout Ruled emptyDesk es)
    (hrun : deskMachine.run emptyDesk es = some s) :
    ∀ id c, s.cases.get? id = some c → Authorised id c es :=
  (known_of_run hruled hrun).stored

def lenientPolicy : Preferences where
  autoClose :=
    { falsePositive := ⟨true, 1 / 2, 30, 1440, by norm_num, by norm_num⟩
      truePositive := ⟨false, 1 / 2, 10, 4320, by norm_num, by norm_num⟩
      needsHuman := ⟨false, 1 / 2, 20, 1440, by norm_num, by norm_num⟩ }
  escalationConfidence := 1 / 2
  criticalSeverity := 7

def clearedRun : List Event :=
  [.find 0 "case-1", .save 0 "case-1" (.investigate [['r']] .falsePositive
    (lenientPolicy.ruling (3 / 4) 20 .falsePositive))]

theorem close_authority_of_cleared : ∃ s c, deskMachine.run emptyDesk clearedRun = some s ∧
    s.cases.get? "case-1" = some c ∧ c.decisionBy = some .agent ∧
    Authorised "case-1" c clearedRun := by
  have hruled : deskMachine.Throughout Ruled emptyDesk clearedRun :=
    ⟨trivial, ⟨lenientPolicy, 3 / 4, 20, rfl⟩, trivial⟩
  have hclears : lenientPolicy.clears (3 / 4) 20 (some .falsePositive) = true := by
    refine clears_iff.mpr ⟨lenientPolicy.autoClose.falsePositive, rfl, rfl, ?_, ?_⟩
    · change (1 / 2 : ℚ) ≤ 3 / 4
      norm_num
    · change (20 : ℚ) ≤ 30
      norm_num
  have hstored := Dict.get?_set_self (Dict.empty : Dict String Case) "case-1"
    (({ ruleIds := [['r']], verdict := some .falsePositive } : Case).applied .falsePositive
      (lenientPolicy.ruling (3 / 4) 20 .falsePositive))
  refine ⟨_, _, rfl, hstored, ?_, close_authority hruled rfl _ _ hstored⟩
  exact (applied_of_clears hclears).2

end Runs

end AgenticKibana.Dispositions
