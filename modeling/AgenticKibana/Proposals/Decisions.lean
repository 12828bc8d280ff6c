import AgenticKibana.Proposals.Store

/-!
# Decisions on proposals are immutable

Every operation changes the row of a proposal in one of five ways (`Transition`).  What
the ways keep of a decision (`Kept`) is kept by every run, except in two cases: a
`reject_pending` of a released approval, and a rejection that brings the reason its first
claim did not give.
-/

namespace AgenticKibana.Proposals

open AgenticKibana.Library Machine Option

variable {p q r : Proposal} {entries : List Proposal} {id : String}

theorem id_of_find (h : find entries id = some p) : p.id = id := by
  have hp := List.find?_some h
  exact of_decide_eq_true hp

variable {row : Proposal}

/-- Replacing a row by one with its identifier changes what is found under it, and
nothing else. -/
theorem find_replaceFirst (hid : row.id = id) (h : find entries id = some p) (id' : String) :
    find (replaceFirst id row entries) id' = if id' = id then some row else find entries id' := by
  induction entries with
  | nil => cases h
  | cons x rest ih =>
    by_cases hx : x.id = id
    · rw [replaceFirst, if_pos hx]
      by_cases hid' : id' = id
      · subst hid'
        simp [find, hid]
      · rw [if_neg hid']
        have hne : row.id ≠ id' := fun heq => hid' (heq.symm.trans hid)
        have hne' : x.id ≠ id' := fun heq => hid' (heq.symm.trans hx)
        simp [find, hne, hne']
    · rw [replaceFirst, if_neg hx]
      have hrest : find rest id = some p := by simpa [find, hx] using h
      by_cases hxid : x.id = id'
      · have hid' : id' ≠ id := fun heq => hx (hxid.trans heq)
        simp [find, hxid, hid']
      · have hfind : ∀ l, find (x :: l) id' = find l id' := fun l => by simp [find, hxid]
        rw [hfind, hfind]
        exact ih hrest

variable {moment : Time}

theorem find_sweepExpired {bound : Nat} (h : find entries id = some p) :
    find (sweepExpired moment bound entries).2 id = some p ∨
      (p.status = .pending ∧ proposalIsExpired p moment = true ∧
        find (sweepExpired moment bound entries).2 id = some (Expired p)) := by
  induction entries generalizing bound with
  | nil => cases h
  | cons x rest ih =>
    cases bound with
    | zero => exact .inl h
    | succ bound =>
      rw [sweepExpired]
      by_cases hx : x.id = id
      · have hxp : x = p := by simpa [find, hx] using h
        subst hxp
        split
        · exact .inl (by simp [find, hx])
        · rename_i hno
          rw [not_or, not_not, Bool.not_eq_false] at hno
          exact .inr ⟨hno.1, hno.2, by simp [find, Expired, hx]⟩
      · have hrest : find rest id = some p := by simpa [find, hx] using h
        have hfind : ∀ y : Proposal, y.id = x.id → ∀ l, find (y :: l) id = find l id :=
          fun y hy l => by simp [find, hy, hx]
        split
        · rw [hfind x rfl]
          exact ih hrest
        · rw [hfind (Expired x) rfl]
          exact ih hrest

inductive Transition (op : Op) (env : Env) (p : Proposal) : Proposal → Prop
  | same : Transition op env p p
  | claimed {by_ token : String} {action : Decision} {reason : String}
      (hintent : p.decisionIntent = none ∨ p.decisionIntent = some action)
      (hstatus : p.status = .pending ∨ (p.status = .applying ∧ leaseIsStale p env.now = true) ∨
        p.status = .expired)
      (hreason : action = .approve → reason = "")
      (hreject : action = .reject → ∃ given now, op = .claimRejection p.id by_ token given now ∧
        reason = sanitizeDecisionReason given) :
      Transition op env p (Claimed p by_ token action reason env)
  | finalized {by_ : String} {action : Decision} (hstatus : p.status = .applying)
      (hintent : p.decisionIntent = some action) :
      Transition op env p (Finalized p by_ action env)
  | released {token error : String} (hop : op = .releaseApproval p.id token error)
      (hstatus : p.status = .applying) (htoken : p.applyingToken = some token) :
      Transition op env p (Released p (errorDetail error))
  | expired {now : Time} (hstatus : p.status = .pending)
      (hlapsed : proposalIsExpired p now = true) : Transition op env p (Expired p)
  | rejected {by_ : String} (hop : op = .rejectPending p.id by_) (hstatus : p.status = .pending) :
      Transition op env p (Rejected p by_ env)

theorem sanitizeDecisionReason_none : sanitizeDecisionReason none = "" := by decide

theorem id_claimRow (p : Proposal) (by_ token : String) (action : Decision) (reason : String)
    (moment : Time) (env : Env) : (claimRow p by_ token action reason moment env).1.id = p.id := by
  unfold claimRow
  split
  · rfl
  · dsimp only
    split
    · rfl
    · split <;> rfl

variable {by_ reason token : String} {env : Env} {op : Op} {action : Decision}

theorem transition_claimRow (hreason : action = .approve → reason = "")
    (hreject : action = .reject → ∃ given now, op = .claimRejection p.id by_ token given now ∧
      reason = sanitizeDecisionReason given) :
    Transition op env p (claimRow p by_ token action reason moment env).1 := by
  unfold claimRow
  split
  · exact .same
  · rename_i hintent
    dsimp only
    split
    · exact .same
    · split
      · rename_i hclaimable
        refine .claimed ?_ ?_ hreason hreject
        · cases hp : p.decisionIntent with
          | none => exact .inl rfl
          | some intent =>
            rw [hp, any_some, decide_eq_true_eq, not_not] at hintent
            exact .inr (congrArg some hintent)
        · rcases hclaimable with h | h | ⟨-, h⟩
          · exact .inl h
          · exact .inr (.inl h)
          · exact .inr (.inr h)
      · exact .same

variable {id' : String}

theorem transition_replaceFirst (hp : find entries id = some p) (hid : row.id = id)
    (hrow : Transition op env p row) (hq : find entries id' = some q) :
    ∃ q', find (replaceFirst id row entries) id' = some q' ∧ Transition op env q q' := by
  rw [find_replaceFirst hid hp id']
  by_cases hsame : id' = id
  · subst hsame
    rw [hp, Option.some.injEq] at hq
    subst hq
    exact ⟨row, if_pos rfl, hrow⟩
  · rw [if_neg hsame]
    exact ⟨q, hq, .same⟩

theorem transition_claimDecision {reason : Option String}
    (hreason : action = .approve → reason = none)
    (hreject : action = .reject → op = .claimRejection id by_ token reason moment)
    (hq : find entries id' = some q) :
    ∃ q', find (claimDecision id by_ token action reason moment env entries).2 id' = some q' ∧
      Transition op env q q' := by
  unfold claimDecision
  cases hp : find entries id with
  | none => exact ⟨q, hq, .same⟩
  | some p =>
    have hempty : action = .approve → sanitizeDecisionReason reason = "" := by
      intro ha
      rw [hreason ha, sanitizeDecisionReason_none]
    have hgiven : action = .reject → ∃ given now, op = .claimRejection p.id by_ token given now ∧
        sanitizeDecisionReason reason = sanitizeDecisionReason given := by
      intro ha
      exact ⟨reason, moment, by rw [id_of_find hp]; exact hreject ha, rfl⟩
    exact transition_replaceFirst hp ((id_claimRow p _ _ _ _ _ _).trans (id_of_find hp))
      (transition_claimRow hempty hgiven) hq

/-- **What an operation does to a proposal** is one of the transitions. -/
theorem transition_apply (op : Op) (env : Env) (h : find entries id = some p) :
    ∃ q, find (op.apply env entries).2 id = some q ∧ Transition op env p q := by
  have hfinalize : ∀ {id' by_ token : String} {action : Decision},
      ∃ q, find (finalizeDecision id' by_ token action env entries).2 id = some q ∧
        Transition op env p q := by
    intro id' by_ token action
    unfold finalizeDecision
    cases hp : find entries id' with
    | none => exact ⟨p, h, .same⟩
    | some p' =>
      dsimp only
      split
      · exact ⟨p, h, .same⟩
      · rename_i hno
        simp only [not_or, not_not] at hno
        have hid : p'.id = id' := id_of_find hp
        have hrow : Transition op env p' (Finalized p' by_ action env) :=
          .finalized hno.1 hno.2.2
        exact transition_replaceFirst hp hid hrow h
  cases op with
  | claimApproval id' by_ token now => exact transition_claimDecision (fun _ => rfl) nofun h
  | claimRejection id' by_ token reason now => exact transition_claimDecision nofun (fun _ => rfl) h
  | finalizeApproval id' by_ token | finalizeRejection id' by_ token => exact hfinalize
  | releaseApproval id' token error =>
    simp only [Op.apply, releaseApproval]
    cases hp : find entries id' with
    | none => exact ⟨p, h, .same⟩
    | some p' =>
      dsimp only
      split
      · exact ⟨p, h, .same⟩
      · rename_i hno
        simp only [not_or, not_not] at hno
        have hid : p'.id = id' := id_of_find hp
        have hrow : Transition (.releaseApproval id' token error) env p'
            (Released p' (errorDetail error)) := .released (by rw [hid]) hno.1 hno.2
        exact transition_replaceFirst hp hid hrow h
  | sweepExpired now limit =>
    have hswept : find (sweepExpired now limit entries).2 id = some p ∨ _ := find_sweepExpired h
    rcases hswept with hsame | ⟨hpending, hlapsed, hexpired⟩
    · exact ⟨p, hsame, .same⟩
    · exact ⟨Expired p, hexpired, .expired hpending hlapsed⟩
  | rejectPending id' by_ =>
    simp only [Op.apply, rejectPending]
    cases hp : find entries id' with
    | none => exact ⟨p, h, .same⟩
    | some p' =>
      dsimp only
      split
      · exact ⟨p, h, .same⟩
      · rename_i hno
        rw [not_not] at hno
        have hid : p'.id = id' := id_of_find hp
        have hrow : Transition (.rejectPending id' by_) env p' (Rejected p' by_ env) :=
          .rejected (by rw [hid]) hno
        exact transition_replaceFirst hp hid hrow h

/-! ### What is kept of a decision -/

def Proposal.decision (p : Proposal) :
    Option Decision × Option String × Option String × Option String :=
  (p.decisionIntent, p.decisionActor, p.decisionAuditAt, p.decisionReason)

structure Fixed (p : Proposal) : Prop where
  intent : p.decisionIntent.isSome = true
  actor : p.decisionActor.isSome = true
  auditAt : ∃ at_, p.decisionAuditAt = some at_ ∧ at_ ≠ ""
  reason : p.decisionReason ≠ some ""

/-- What is kept of a proposal `p` in a later row `q` of it. -/
structure Kept (p q : Proposal) : Prop where
  intent : ∀ action, p.decisionIntent = some action → q.decisionIntent = some action
  /-- A decision that was fixed never changes. -/
  decision : Fixed p → q.decision = p.decision
  approved : p.status = .approved → q.status = .approved
  rejected : p.status = .rejected → q.status = .rejected
  /-- What becomes approved carries the intent to approve it. -/
  approvedFrom : q.status = .approved → p.status = .approved ∨ q.decisionIntent = some .approve
  /-- What becomes rejected never carried the intent to approve it. -/
  rejectedFrom : q.status = .rejected → p.status = .rejected ∨ p.decisionIntent ≠ some .approve

theorem Kept.refl (p : Proposal) : Kept p p where
  intent := fun _ h => h
  decision := fun _ => rfl
  approved := id
  rejected := id
  approvedFrom := .inl
  rejectedFrom := .inl

theorem Fixed.of_decision (h : Fixed p) (heq : q.decision = p.decision) : Fixed q := by
  simp only [Proposal.decision, Prod.mk.injEq] at heq
  obtain ⟨hintent, hactor, hauditAt, hreason⟩ := heq
  exact ⟨hintent ▸ h.intent, hactor ▸ h.actor, hauditAt ▸ h.auditAt, hreason ▸ h.reason⟩

theorem Kept.trans (h : Kept p q) (h' : Kept q r) : Kept p r where
  intent := fun action hp => h'.intent action (h.intent action hp)
  decision := by
    intro hp
    have hq := h.decision hp
    exact (h'.decision (hp.of_decision hq)).trans hq
  approved := fun hp => h'.approved (h.approved hp)
  rejected := fun hp => h'.rejected (h.rejected hp)
  approvedFrom := by
    intro hr
    rcases h'.approvedFrom hr with hq | hr'
    · exact (h.approvedFrom hq).imp_right (h'.intent .approve)
    · exact .inr hr'
  rejectedFrom := by
    intro hr
    rcases h'.rejectedFrom hr with hq | hq
    · exact h.rejectedFrom hq
    · exact .inr fun hp => hq (h.intent .approve hp)

/-- An operation that respects earlier decisions: it does not reject a released approval
with `reject_pending`, and does not bring the reason of a rejection after the claim that
should have fixed it. -/
def Op.respects (op : Op) (env : Env) (entries : List Proposal) : Bool :=
  match op with
  | .rejectPending id _ =>
    (find entries id).all fun p => !(p.status = .pending && p.decisionIntent = some .approve)
  | .claimRejection id _ _ reason _ =>
    (find entries id).all fun p =>
      !(p.decisionIntent = some .reject && p.decisionReason = none &&
        sanitizeDecisionReason reason ≠ "" &&
        (p.status = .pending || p.status = .expired ||
          (p.status = .applying && leaseIsStale p env.now)))
  | _ => true

theorem orElse_of_nonempty {s : String} (hs : s ≠ "") (y : Option String) :
    orElse (some s) y = some s := by
  simp [orElse, hs]

theorem reason_of_respects {given : Option String} {now : Time}
    (hrespects : (Op.claimRejection p.id by_ token given now).respects env entries = true)
    (hp : find entries p.id = some p) (hintent : p.decisionIntent = some .reject)
    (hstatus : p.status = .pending ∨ (p.status = .applying ∧ leaseIsStale p env.now = true) ∨
      p.status = .expired) :
    p.decisionReason = none → sanitizeDecisionReason given = "" := by
  intro hnone
  by_contra hne
  rw [Op.respects, hp, all_some] at hrespects
  rcases hstatus with h | ⟨h, hstale⟩ | h
  · simp [hintent, hnone, h, hne] at hrespects
  · simp [hintent, hnone, h, hstale, hne] at hrespects
  · simp [hintent, hnone, h, hne] at hrespects

theorem decision_claimed (hp : find entries p.id = some p) (hfixed : Fixed p)
    (hrespects : op.respects env entries = true)
    (hintent : p.decisionIntent = none ∨ p.decisionIntent = some action)
    (hstatus : p.status = .pending ∨ (p.status = .applying ∧ leaseIsStale p env.now = true) ∨
      p.status = .expired) (hreason : action = .approve → reason = "")
    (hreject : action = .reject → ∃ given now, op = .claimRejection p.id by_ token given now ∧
      reason = sanitizeDecisionReason given) :
    (Claimed p by_ token action reason env).decision = p.decision := by
  obtain ⟨intent, hsome⟩ := isSome_iff_exists.mp hfixed.intent
  obtain ⟨actor, hactor⟩ := isSome_iff_exists.mp hfixed.actor
  obtain ⟨auditAt, haudit, hne⟩ := hfixed.auditAt
  have haction : p.decisionIntent = some action := by
    rcases hintent with hnone | h
    · rw [hsome] at hnone
      cases hnone
    · exact h
  have hkept : orElse p.decisionReason (nonempty reason) = p.decisionReason := by
    cases hr : p.decisionReason with
    | some given =>
      exact orElse_of_nonempty (fun heq => hfixed.reason (heq ▸ hr)) _
    | none =>
      have hempty : reason = "" := by
        cases action with
        | approve => exact hreason rfl
        | reject =>
          obtain ⟨given, now, rfl, rfl⟩ := hreject rfl
          exact reason_of_respects hrespects hp haction hstatus hr
      rw [hempty]
      rfl
  simp [Proposal.decision, Claimed, fixedDecisionActor, haction, hactor, haudit,
    orElse_of_nonempty hne, hkept]

/-- **An operation that respects earlier decisions keeps them.** -/
theorem kept_of_transition (hp : find entries p.id = some p)
    (hrespects : op.respects env entries = true) (h : Transition op env p q) : Kept p q := by
  cases h with
  | same => exact Kept.refl p
  | @claimed by_ token action reason hintent hstatus hreason hreject =>
    have hno : p.status ≠ .approved ∧ p.status ≠ .rejected := by
      rcases hstatus with h | ⟨h, -⟩ | h <;> rw [h] <;> exact ⟨nofun, nofun⟩
    refine ⟨?_, fun hfixed => decision_claimed hp hfixed hrespects hintent hstatus hreason hreject,
      fun h => absurd h hno.1, fun h => absurd h hno.2, nofun, nofun⟩
    intro intent hsome
    simp [Claimed, hsome]
  | @finalized by_ action hstatus hintent =>
    refine ⟨fun _ h => h, fun _ => rfl, fun h => ?_, fun h => ?_, ?_, ?_⟩
    · rw [hstatus] at h
      cases h
    · rw [hstatus] at h
      cases h
    · cases action with
      | approve => exact fun _ => .inr hintent
      | reject => exact nofun
    · cases action with
      | approve => exact nofun
      | reject =>
        refine fun _ => .inr fun happrove => ?_
        rw [hintent] at happrove
        cases happrove
  | released hop hstatus htoken | expired hstatus hlapsed =>
    refine ⟨fun _ h => h, fun _ => rfl, fun h => ?_, fun h => ?_, nofun, nofun⟩
    · rw [hstatus] at h
      cases h
    · rw [hstatus] at h
      cases h
  | @rejected by_ hop hstatus =>
    refine ⟨fun _ h => h, ?_, fun h => ?_, fun _ => rfl, nofun, fun _ => .inr fun happrove => ?_⟩
    · intro hfixed
      obtain ⟨actor, hactor⟩ := isSome_iff_exists.mp hfixed.actor
      simp [Proposal.decision, Rejected, fixedDecisionActor, hactor]
    · rw [hstatus] at h
      cases h
    · rw [hop] at hrespects
      simp [Op.respects, hp, hstatus, happrove] at hrespects

theorem fixed_of_claimRow (henv : env.isoNow ≠ "")
    (h : (claimRow p by_ token action reason moment env).2 = .claimed) :
    let row := (claimRow p by_ token action reason moment env).1
    Fixed row ∧ row.status = .applying ∧ row.decisionIntent = some action := by
  unfold claimRow at h ⊢
  split at h
  · cases h
  · rename_i hintent
    rw [if_neg hintent]
    dsimp only at h ⊢
    split at h
    · cases h
    · rename_i hlapsed
      rw [if_neg hlapsed]
      split at h
      · rename_i hclaimable
        rw [if_pos hclaimable]
        refine ⟨⟨rfl, rfl, ?_, ?_⟩, rfl, ?_⟩
        · cases hat : p.decisionAuditAt with
          | none => exact ⟨env.isoNow, by simp [Claimed, orElse, hat], henv⟩
          | some auditAt =>
            by_cases hempty : auditAt = ""
            · exact ⟨env.isoNow, by simp [Claimed, orElse, hat, hempty], henv⟩
            · exact ⟨auditAt, by simp [Claimed, orElse, hat, hempty], hempty⟩
        · intro hreason
          simp only [Claimed, orElse, nonempty] at hreason
          split at hreason
          · split at hreason <;> simp_all
          · split at hreason
            · split at hreason <;> simp_all
            · simp_all
        · cases hp : p.decisionIntent with
          | none => simp [Claimed, hp]
          | some intent =>
            rw [hp, any_some, decide_eq_true_eq, not_not] at hintent
            simp [Claimed, hp, hintent]
      · cases h

theorem fixed_of_claimDecision {reason : Option String} (henv : env.isoNow ≠ "")
    (h : (claimDecision id by_ token action reason moment env entries).1 = (some row, .claimed)) :
    find (claimDecision id by_ token action reason moment env entries).2 id = some row ∧
      Fixed row ∧ row.status = .applying ∧ row.decisionIntent = some action := by
  unfold claimDecision at h ⊢
  cases hp : find entries id with
  | none => simp [hp] at h
  | some p =>
    simp only [hp, Prod.mk.injEq, Option.some.injEq] at h
    obtain ⟨hrow, houtcome⟩ := h
    have hfixed := fixed_of_claimRow henv houtcome
    rw [hrow] at hfixed
    refine ⟨?_, hfixed⟩
    dsimp only
    have hid : row.id = id := by
      rw [← hrow, id_claimRow]
      exact id_of_find hp
    rw [hrow, find_replaceFirst hid hp, if_pos rfl]

def Op.claims : Op → Option Decision
  | .claimApproval .. => some .approve
  | .claimRejection .. => some .reject
  | _ => none

theorem fixed_of_apply (henv : env.isoNow ≠ "")
    (h : (op.apply env entries).1 = .decision (some row) .claimed) :
    ∃ action, op.claims = some action ∧ find (op.apply env entries).2 row.id = some row ∧
      Fixed row ∧ row.status = .applying ∧ row.decisionIntent = some action := by
  have hclaim : ∀ {id by_ token action reason moment},
      Val.decision (claimDecision id by_ token action reason moment env entries).1.1
          (claimDecision id by_ token action reason moment env entries).1.2 =
        .decision (some row) .claimed →
      find (claimDecision id by_ token action reason moment env entries).2 row.id = some row ∧
        Fixed row ∧ row.status = .applying ∧ row.decisionIntent = some action := by
    intro id by_ token action reason moment heq
    simp only [Val.decision.injEq] at heq
    obtain ⟨hfind, hfixed⟩ := fixed_of_claimDecision henv (Prod.ext heq.1 heq.2)
    rw [id_of_find hfind]
    exact ⟨hfind, hfixed⟩
  cases op with
  | claimApproval id by_ token now => exact ⟨.approve, rfl, hclaim h⟩
  | claimRejection id by_ token reason now => exact ⟨.reject, rfl, hclaim h⟩
  | finalizeApproval | finalizeRejection | releaseApproval | sweepExpired => cases h
  | rejectPending id by_ =>
    simp only [Op.apply, Val.decision.injEq] at h
    have houtcome := h.2
    unfold rejectPending at houtcome
    split at houtcome
    · cases houtcome
    · split at houtcome <;> cases houtcome

def respects {drafted : List Proposal} (s : CasCell.State (proposalInterface drafted))
    (e : CasCell.Event (proposalInterface drafted)) : Prop :=
  match CasCell.committed s e with
  | none => True
  | some k => k.op.respects k.env s.doc = true

/-- **Decisions on proposals are immutable.**  Under any number of operators, calls that
fail, lose their race or are written unseen, and leases that expire at any time:

* over every run whose steps respect the decisions on record, a fixed decision and a final
  status stay, and nothing is rejected after a claim to approve it;
* a row becomes approved only while it is applying, with the intent to approve it;
* a claim that is answered `claimed` has fixed the decision of the row it returns. -/
theorem proposal_decisions_immutable {drafted : List Proposal}
    {s : CasCell.State (proposalInterface drafted)}
    (h : (proposalCell drafted).Reaches anyStep s) :
    (∀ es t id p, (proposalCell drafted).Throughout respects s es →
      (proposalCell drafted).run s es = some t → find s.doc id = some p →
      ∃ q, find t.doc id = some q ∧ Kept p q) ∧
    (∀ e t id p q, (proposalCell drafted).step s e = some t → find s.doc id = some p →
      find t.doc id = some q → q.status = .approved → p.status ≠ .approved →
      p.status = .applying ∧ p.decisionIntent = some .approve) ∧
    (∀ e k row, CasCell.committed s e = some k → k.val = .decision (some row) .claimed →
      ∃ action, k.op.claims = some action ∧ find k.next row.id = some row ∧ Fixed row ∧
        row.status = .applying ∧ row.decisionIntent = some action) := by
  have hsnap : CasCell.Snapshot s := CasCell.snapshot_of_reaches h
  refine ⟨?_, ?_, ?_⟩
  · intro es t id p hall hrun hp
    refine CasCell.doc_run (P := respects)
      (D := fun entries => ∃ q, find entries id = some q ∧ Kept p q) hsnap
      ⟨p, hp, Kept.refl p⟩ ?_ hall hrun
    rintro u e op env val next ⟨q, hq, hkept⟩ hrespects hc - hchange
    simp only [respects, CasCell.committed_of_commits hc] at hrespects
    obtain ⟨r, hr, htransition⟩ := transition_apply op env hq
    have hnext : next = (op.apply env u.doc).2 := by
      injection hchange with hpair
      exact (congrArg Prod.snd hpair).symm
    have hqid : find u.doc q.id = some q := by rw [id_of_find hq]; exact hq
    exact ⟨r, hnext ▸ hr, hkept.trans (kept_of_transition hqid hrespects htransition)⟩
  · intro e t id p q hstep hp hq happroved hne
    rcases CasCell.step_doc hstep with ⟨hdoc, -⟩ | ⟨op, env, val, hc, -⟩
    · rw [hdoc, hp, Option.some.injEq] at hq
      exact absurd (hq ▸ happroved) hne
    · obtain ⟨-, hchange⟩ := hc.change_eq hsnap
      obtain ⟨r, hr, htransition⟩ := transition_apply op env hp
      have hnext : t.doc = (op.apply env s.doc).2 := by
        injection hchange with hpair
        exact (congrArg Prod.snd hpair).symm
      rw [hnext, hr, Option.some.injEq] at hq
      subst hq
      cases htransition with
      | same => exact absurd happroved hne
      | @finalized by_ action hstatus hintent =>
        cases action with
        | approve => exact ⟨hstatus, hintent⟩
        | reject => cases happroved
      | claimed | released | expired | rejected => cases happroved
  · intro e k row hk hval
    have hc := CasCell.commits_of_committed hk
    obtain ⟨hadm, hchange⟩ := hc.change_eq hsnap
    injection hchange with hpair
    have hfirst : (k.op.apply k.env s.doc).1 = .decision (some row) .claimed :=
      (congrArg Prod.fst hpair).trans hval
    have hsecond : (k.op.apply k.env s.doc).2 = k.next := congrArg Prod.snd hpair
    rw [← hsecond]
    exact fixed_of_apply (of_decide_eq_true hadm) hfirst

/-! ### One proposal -/

def sampleProposal : Proposal where
  id := "prop-1"
  kind := .tuning
  status := .pending
  decidedBy := none
  decidedAt := none
  decisionActor := none
  decisionIntent := none
  decisionAuditAt := none
  applyingToken := none
  applyingAt := none
  approvalError := none
  expiresAt := none
  decisionReason := none

def sampleClock (now : Time) : Env := ⟨now, "2026-01-02T00:00:00Z"⟩

def quietCell : CasCell.State (proposalInterface [sampleProposal]) :=
  ⟨[sampleProposal], 0, fun _ => .idle⟩

def call (op : Op) (now : Time) : List (CasCell.Event (proposalInterface [sampleProposal])) :=
  CasCell.solo (I := proposalInterface [sampleProposal]) 0 op (sampleClock now)

instance {drafted : List Proposal} (s : CasCell.State (proposalInterface drafted))
    (e : CasCell.Event (proposalInterface drafted)) : Decidable (respects s e) := by
  unfold respects
  split <;> infer_instance

/-- `alice` claims the approval, and it fails. -/
def approvedFirst : List (CasCell.Event (proposalInterface [sampleProposal])) :=
  call (.claimApproval "prop-1" "alice" "t1" 0) 0 ++
    call (.releaseApproval "prop-1" "t1" "unavailable") 1

/-- `bob` takes it up again. -/
def approvedAgain : List (CasCell.Event (proposalInterface [sampleProposal])) :=
  call (.claimApproval "prop-1" "bob" "t2" 2) 2 ++ call (.finalizeApproval "prop-1" "bob" "t2") 3

/-- The row of an approval that was claimed by `alice` and failed. -/
def releasedApproval : Proposal :=
  Released (Claimed sampleProposal "alice" "t1" .approve "" (sampleClock 0))
    (errorDetail "unavailable")

theorem proposal_decisions_immutable_of_retry :
    ∃ s t q, (proposalCell [sampleProposal]).Reaches anyStep s ∧
      (proposalCell [sampleProposal]).run s approvedAgain = some t ∧
      find s.doc "prop-1" = some releasedApproval ∧ find t.doc "prop-1" = some q ∧
      q.status = .approved ∧ Kept releasedApproval q := by
  have hrun : (((proposalCell [sampleProposal]).run quietCell approvedFirst).any fun s =>
      decide (find s.doc "prop-1" = some releasedApproval ∧
        (proposalCell [sampleProposal]).Throughout respects s approvedAgain) &&
      ((proposalCell [sampleProposal]).run s approvedAgain).any fun t =>
        (find t.doc "prop-1").any fun q => q.status == .approved) = true := by decide
  obtain ⟨s, hs, hfirst⟩ := (Option.any_eq_true _ _).mp hrun
  rw [Bool.and_eq_true, decide_eq_true_eq] at hfirst
  obtain ⟨⟨hrow, hall⟩, hagain⟩ := hfirst
  obtain ⟨t, ht, hend⟩ := (Option.any_eq_true _ _).mp hagain
  have hstart : (proposalCell [sampleProposal]).Reaches anyStep quietCell :=
    Reaches.start ⟨rfl, rfl, fun _ => rfl⟩
  have hreach := hstart.run hs
  obtain ⟨q, hq, hkept⟩ :=
    (proposal_decisions_immutable hreach).1 approvedAgain t "prop-1" releasedApproval hall ht hrow
  rw [hq, Option.any_some, beq_iff_eq] at hend
  exact ⟨s, t, q, hreach, ht, hrow, hq, hend, hkept⟩

def rowAfter (es : List (CasCell.Event (proposalInterface [sampleProposal]))) : Option Proposal :=
  ((proposalCell [sampleProposal]).run quietCell es).bind fun s => find s.doc "prop-1"

/-- The row of a rejection that `alice` claimed without a reason. -/
def claimedRejection : Proposal :=
  Claimed sampleProposal "alice" "t1" .reject "" (sampleClock 0)

/-- The released approval is rejected as pending; and the reason of the rejection is filled
in by the claim that takes it up again. -/
theorem released_approval_rejected :
    (rowAfter (call (.claimApproval "prop-1" "alice" "t1" 0) 0 ++
          call (.releaseApproval "prop-1" "t1" "unavailable") 1) = some releasedApproval ∧
      rowAfter (call (.claimApproval "prop-1" "alice" "t1" 0) 0 ++
          call (.releaseApproval "prop-1" "t1" "unavailable") 1 ++
          call (.rejectPending "prop-1" "bob") 2) =
        some (Rejected releasedApproval "bob" (sampleClock 2)) ∧
      ¬ Kept releasedApproval (Rejected releasedApproval "bob" (sampleClock 2))) ∧
    rowAfter (call (.claimRejection "prop-1" "alice" "t1" none 0) 0) = some claimedRejection ∧
      rowAfter (call (.claimRejection "prop-1" "alice" "t1" none 0) 0 ++
          call (.claimRejection "prop-1" "bob" "t2" (some "duplicate") 30000) 30000) =
        some (Claimed claimedRejection "bob" "t2" .reject "duplicate" (sampleClock 30000)) ∧
      ¬ Kept claimedRejection
        (Claimed claimedRejection "bob" "t2" .reject "duplicate" (sampleClock 30000)) := by
  refine ⟨⟨by decide, by decide, ?_⟩, by decide, by decide, ?_⟩
  · intro hkept
    rcases hkept.rejectedFrom rfl with h | h
    · cases h
    · exact h rfl
  · intro hkept
    have hfixed : Fixed claimedRejection := ⟨rfl, rfl, ⟨_, rfl, by decide⟩, by decide⟩
    have hreason := congrArg (fun d => d.2.2.2) (hkept.decision hfixed)
    exact absurd hreason (by decide)

end AgenticKibana.Proposals
