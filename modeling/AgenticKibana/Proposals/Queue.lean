import AgenticKibana.Proposals.Decisions

/-!
# No proposal is stuck

A proposal that waits for a decision should be open to one of the two claims, and a lapsed
one to its rejection.  A claim to approve that failed keeps its intent when the proposal
goes back to `pending`; once such a proposal lapses it can be approved no more and, for the
intent on record, not rejected either.

No row is lost either, and a lease is exclusive (`rows_stand`).
-/

namespace AgenticKibana.Proposals

open AgenticKibana.Library Machine List

variable {p q : Proposal} {entries : List Proposal} {id : String}

/-- What the queue is asked: a decision, or a new draft.  `add_unique` is `add` where its
key is new, and leaves the list as it is where it is not; `set_status` has no caller. -/
inductive QueueOp where
  | decision (op : Op)
  | add (row : Proposal)
deriving DecidableEq

def Proposal.IsDraft (p : Proposal) : Prop :=
  p.status = .pending ∧ p.decisionIntent = none

instance (p : Proposal) : Decidable p.IsDraft := by
  unfold Proposal.IsDraft
  infer_instance

def QueueOp.apply (op : QueueOp) (env : Env) (entries : List Proposal) : Val × List Proposal :=
  match op with
  | .decision op => op.apply env entries
  | .add row => (.updated (some row), entries ++ [row])

/-- What is drafted is a draft, under an identifier that is not in use (`new_id`). -/
def QueueOp.admissible (op : QueueOp) (env : Env) (entries : List Proposal) : Bool :=
  decide (env.isoNow ≠ "") &&
    match op with
    | .decision _ => true
    | .add row => decide (row.IsDraft ∧ find entries row.id = none)

@[reducible] def queueInterface : CasCell.Interface where
  Doc := List Proposal
  Op := QueueOp
  Env := Env
  Val := Val
  Err := Empty
  Query := Empty
  Answer := Empty
  init := []
  attempts := 8
  admissible := QueueOp.admissible
  change := fun op env entries => .ok (op.apply env entries)
  answer := fun q _ _ => q

abbrev queueCell := CasCell.cell queueInterface

/-! ### What is asked of it -/

/-- The row is shown as expired at a moment: it was swept, or `_projected` says so. -/
def presentedExpired (p : Proposal) (moment : Time) : Prop :=
  p.status = .expired ∨ (p.status = .pending ∧ proposalIsExpired p moment = true)

def awaitsDecision (p : Proposal) (now : Time) : Prop :=
  p.status = .pending ∨ p.status = .expired ∨
    (p.status = .applying ∧ leaseIsStale p now = true)

/-- The outcome of `claim_approval` at a moment. -/
def approvalOutcome (entries : List Proposal) (p : Proposal) (by_ token : String) (moment : Time)
    (env : Env) : Outcome :=
  (claimDecision p.id by_ token .approve none moment env entries).1.2

/-- The outcome of `claim_rejection` at a moment. -/
def rejectionOutcome (entries : List Proposal) (p : Proposal) (by_ token : String)
    (reason : Option String) (moment : Time) (env : Env) : Outcome :=
  (claimDecision p.id by_ token .reject reason moment env entries).1.2

/-- The row is not stuck: whoever asks, a waiting row can be claimed one way or the other,
and an expired one can be rejected. -/
def Served (entries : List Proposal) (p : Proposal) (moment : Time) (env : Env) : Prop :=
  ∀ by_ token reason,
    (awaitsDecision p env.now →
      approvalOutcome entries p by_ token moment env = .claimed ∨
        rejectionOutcome entries p by_ token reason moment env = .claimed) ∧
    (presentedExpired p moment →
      rejectionOutcome entries p by_ token reason moment env = .claimed)

theorem claimRow_claimed_iff (p : Proposal) (by_ token : String) (action : Decision)
    (reason : String) (moment : Time) (env : Env) :
    (claimRow p by_ token action reason moment env).2 = .claimed ↔
      (p.decisionIntent = none ∨ p.decisionIntent = some action) ∧
        ¬ (action = .approve ∧ presentedExpired p moment) ∧
        (p.status = .pending ∨ (p.status = .applying ∧ leaseIsStale p env.now = true) ∨
          (action = .reject ∧ p.status = .expired)) := by
  have hintent : p.decisionIntent.any (· ≠ action) = true ↔
      ¬ (p.decisionIntent = none ∨ p.decisionIntent = some action) := by
    cases p.decisionIntent <;> simp
  unfold claimRow presentedExpired
  dsimp only
  split
  · rename_i hother
    simp [hintent.mp hother]
  · rename_i hown
    rw [hintent, not_not] at hown
    split
    · rename_i hlapsed
      simp [hlapsed]
    · rename_i hopen
      split
      · rename_i hclaimable
        exact iff_of_true rfl ⟨hown, hopen, hclaimable⟩
      · rename_i hno
        exact iff_of_false nofun fun h => hno h.2.2

variable {env : Env} {op : QueueOp} {moment : Time}

theorem claimDecision_claimed_iff {by_ token : String} {action : Decision}
    {reason : Option String} (hp : find entries p.id = some p) :
    (claimDecision p.id by_ token action reason moment env entries).1.2 = .claimed ↔
      (p.decisionIntent = none ∨ p.decisionIntent = some action) ∧
        ¬ (action = .approve ∧ presentedExpired p moment) ∧
        (p.status = .pending ∨ (p.status = .applying ∧ leaseIsStale p env.now = true) ∨
          (action = .reject ∧ p.status = .expired)) := by
  rw [← claimRow_claimed_iff p by_ token action (sanitizeDecisionReason reason)]
  simp [claimDecision, hp]

theorem presentedExpired.awaits {now : Time} (h : presentedExpired p moment) :
    awaitsDecision p now := by
  rcases h with h | h
  · exact .inr (.inl h)
  · exact .inl h.1

theorem served_iff (hp : find entries p.id = some p) : Served entries p moment env ↔
      ¬ (presentedExpired p moment ∧ p.decisionIntent = some .approve) := by
  have hreject : ∀ by_ token reason,
      rejectionOutcome entries p by_ token reason moment env = .claimed ↔
        p.decisionIntent ≠ some .approve ∧ awaitsDecision p env.now := by
    intro by_ token reason
    rw [rejectionOutcome, claimDecision_claimed_iff hp, awaitsDecision]
    cases p.decisionIntent with
    | none => simp; tauto
    | some intent => cases intent <;> simp; tauto
  constructor
  · rintro hserved ⟨hlapsed, hintent⟩
    exact ((hreject "" "" none).mp ((hserved "" "" none).2 hlapsed)).1 hintent
  · intro hopen by_ token reason
    refine ⟨fun hawaits => ?_, fun hlapsed => ?_⟩
    · by_cases hintent : p.decisionIntent = some .approve
      · have hcurrent : ¬ presentedExpired p moment := fun h => hopen ⟨h, hintent⟩
        refine .inl ((claimDecision_claimed_iff hp).mpr ⟨.inr hintent, fun h => hcurrent h.2, ?_⟩)
        rcases hawaits with h | h | h
        · exact .inl h
        · exact absurd (.inl h) hcurrent
        · exact .inr (.inl h)
      · exact .inr ((hreject by_ token reason).mpr ⟨hintent, hawaits⟩)
    · have hintent : p.decisionIntent ≠ some .approve := fun h => hopen ⟨hlapsed, h⟩
      exact (hreject by_ token reason).mpr ⟨hintent, hlapsed.awaits⟩

def Distinct (entries : List Proposal) : Prop := (entries.map Proposal.id).Nodup

theorem find_of_mem (h : Distinct entries) (hp : p ∈ entries) : find entries p.id = some p := by
  induction entries with
  | nil => cases hp
  | cons x rest ih =>
    obtain ⟨hx, hrest⟩ := nodup_cons.mp h
    rcases mem_cons.mp hp with rfl | hp
    · simp [find]
    · have hne : x.id ≠ p.id := fun heq => hx (heq ▸ List.mem_map_of_mem hp)
      simpa [find, hne] using ih hrest hp

theorem mem_of_find (h : find entries id = some p) : p ∈ entries := mem_of_find?_eq_some h

theorem map_id_replaceFirst {row : Proposal} (hid : row.id = id) :
    (replaceFirst id row entries).map Proposal.id = entries.map Proposal.id := by
  induction entries with
  | nil => rfl
  | cons x rest ih =>
    rw [replaceFirst]
    split
    · rename_i hx
      simp [hid, hx]
    · simp [ih]

theorem map_id_sweepExpired (moment : Time) (bound : Nat) (entries : List Proposal) :
    (sweepExpired moment bound entries).2.map Proposal.id = entries.map Proposal.id := by
  induction entries generalizing bound with
  | nil => cases bound <;> rfl
  | cons x rest ih =>
    cases bound with
    | zero => rfl
    | succ bound =>
      rw [sweepExpired]
      split
      · simp [ih]
      · simp [ih, Expired]

theorem map_id_apply (op : Op) (env : Env) (entries : List Proposal) :
    (op.apply env entries).2.map Proposal.id = entries.map Proposal.id := by
  have hclaim : ∀ {id by_ token action reason moment},
      (claimDecision id by_ token action reason moment env entries).2.map Proposal.id =
        entries.map Proposal.id := by
    intro id by_ token action reason moment
    unfold claimDecision
    split
    · rfl
    · rename_i x hx
      exact map_id_replaceFirst ((id_claimRow x _ _ _ _ _ _).trans (id_of_find hx))
  have hfinalize : ∀ {id by_ token action},
      (finalizeDecision id by_ token action env entries).2.map Proposal.id =
        entries.map Proposal.id := by
    intro id by_ token action
    unfold finalizeDecision
    split
    · rfl
    · rename_i x hx
      have hid : x.id = id := id_of_find hx
      split
      · rfl
      · exact map_id_replaceFirst hid
  cases op with
  | claimApproval id by_ token now | claimRejection id by_ token reason now => exact hclaim
  | finalizeApproval id by_ token | finalizeRejection id by_ token => exact hfinalize
  | sweepExpired now limit => exact map_id_sweepExpired now limit entries
  | releaseApproval id token error =>
    simp only [Op.apply, releaseApproval]
    split
    · rfl
    · rename_i x hx
      have hid : x.id = id := id_of_find hx
      split
      · rfl
      · exact map_id_replaceFirst hid
  | rejectPending id by_ =>
    simp only [Op.apply, rejectPending]
    split
    · rfl
    · rename_i x hx
      have hid : x.id = id := id_of_find hx
      split
      · rfl
      · exact map_id_replaceFirst hid

theorem Distinct.apply (h : Distinct entries)
    (hop : op.admissible env entries = true) : Distinct (op.apply env entries).2 := by
  cases op with
  | decision op =>
    rw [Distinct, QueueOp.apply, map_id_apply]
    exact h
  | add row =>
    simp only [QueueOp.admissible, Bool.and_eq_true, decide_eq_true_eq] at hop
    have hnew : row.id ∉ entries.map Proposal.id := by
      intro hmem
      obtain ⟨x, hx, hxid⟩ := List.mem_map.mp hmem
      have hnone := find?_eq_none.mp hop.2.2 x hx
      exact hnone (decide_eq_true hxid)
    have hadd : (entries.map Proposal.id ++ [row.id]).Nodup :=
      nodup_append.mpr ⟨h, by simp, by
        intro x hx y hy heq
        simp only [mem_singleton] at hy
        exact hnew (hy ▸ heq ▸ hx)⟩
    simpa [Distinct, QueueOp.apply] using hadd

/-! ### How a proposal gets stuck -/

def reviewDeadline (p : Proposal) : Option Time :=
  match p.kind with
  | .suppression => none
  | _ => p.expiresAt

theorem proposalIsExpired_eq (p : Proposal) (now : Time) :
    proposalIsExpired p now = (reviewDeadline p).any (fun deadline => deadline ≤ now) := by
  unfold proposalIsExpired reviewDeadline
  cases p.kind <;> simp <;> cases p.expiresAt <;> simp

/-- The operation returns an approval that failed to the queue, of a proposal with a
deadline. -/
def QueueOp.returnsDated (op : QueueOp) (entries : List Proposal) : Bool :=
  match op with
  | .decision (.releaseApproval id token _) =>
    (find entries id).any fun p =>
      p.status = .applying && p.applyingToken = some token &&
        p.decisionIntent = some .approve && (reviewDeadline p).isSome
  | _ => false

def keepsDated (s : CasCell.State queueInterface) (e : CasCell.Event queueInterface) : Prop :=
  match CasCell.committed s e with
  | none => True
  | some k => k.op.returnsDated s.doc = false

/-- What keeps every row from getting stuck: an approval waits in the queue only where the
proposal never lapses. -/
structure Unstuck (entries : List Proposal) : Prop where
  distinct : Distinct entries
  pending : ∀ p ∈ entries, p.status = .pending → p.decisionIntent = some .approve →
    reviewDeadline p = none
  expired : ∀ p ∈ entries, p.status = .expired → p.decisionIntent ≠ some .approve

theorem Unstuck.apply (h : Unstuck entries)
    (hop : op.admissible env entries = true) (hkeeps : op.returnsDated entries = false) :
    Unstuck (op.apply env entries).2 := by
  have hdistinct := h.distinct.apply hop
  cases op with
  | add row =>
    simp only [QueueOp.admissible, Bool.and_eq_true, decide_eq_true_eq] at hop
    obtain ⟨-, ⟨hpending, hintent⟩, -⟩ := hop
    refine ⟨hdistinct, ?_, ?_⟩
    · intro q hq hstatus happrove
      rcases mem_append.mp hq with hq | hq
      · exact h.pending q hq hstatus happrove
      · rw [mem_singleton.mp hq, hintent] at happrove
        cases happrove
    · intro q hq hstatus
      rcases mem_append.mp hq with hq | hq
      · exact h.expired q hq hstatus
      · rw [mem_singleton.mp hq, hpending] at hstatus
        cases hstatus
  | decision op =>
    -- each row comes from the row with its identifier, by one of the transitions
    have horigin : ∀ q ∈ (op.apply env entries).2, ∃ p ∈ entries, p.id = q.id ∧
        find entries p.id = some p ∧ Transition op env p q := by
      intro q hq
      have hmem : q.id ∈ entries.map Proposal.id := by
        rw [← map_id_apply op env entries]
        exact List.mem_map_of_mem hq
      obtain ⟨p, hp, hid⟩ := List.mem_map.mp hmem
      have hfind := find_of_mem h.distinct hp
      obtain ⟨r, hr, htransition⟩ := transition_apply op env hfind
      have hqr : find (op.apply env entries).2 p.id = some q := hid ▸ find_of_mem hdistinct hq
      rw [hr, Option.some.injEq] at hqr
      exact ⟨p, hp, hid, hfind, hqr ▸ htransition⟩
    refine ⟨hdistinct, ?_, ?_⟩
    · intro q hq hstatus happrove
      obtain ⟨p, hp, -, hfind, htransition⟩ := horigin q hq
      cases htransition with
      | same => exact h.pending _ hp hstatus happrove
      | @finalized by_ action => cases action <;> cases hstatus
      | claimed | expired | rejected => cases hstatus
      | @released token error hop happlying htoken =>
        have hintent : p.decisionIntent = some .approve := happrove
        have hkept : reviewDeadline p = none := by
          simpa [QueueOp.returnsDated, hop, hfind, happlying, htoken, hintent] using hkeeps
        exact hkept
    · intro q hq hstatus
      obtain ⟨p, hp, -, -, htransition⟩ := horigin q hq
      cases htransition with
      | same => exact h.expired _ hp hstatus
      | @finalized by_ action => cases action <;> cases hstatus
      | claimed | released | rejected => cases hstatus
      | @expired now hpending hlapsed =>
        intro happrove
        have hnone : reviewDeadline p = none := h.pending p hp hpending happrove
        rw [proposalIsExpired_eq, hnone] at hlapsed
        cases hlapsed

theorem Unstuck.served (h : Unstuck entries) (hp : p ∈ entries) (moment : Time) (env : Env) :
    Served entries p moment env := by
  refine (served_iff (find_of_mem h.distinct hp)).mpr ?_
  rintro ⟨hexpired | ⟨hpending, hlapsed⟩, hintent⟩
  · exact h.expired p hp hexpired hintent
  · rw [proposalIsExpired_eq, h.pending p hp hpending hintent] at hlapsed
    cases hlapsed

theorem stuck_of_returnsDated (hdated : op.returnsDated entries = true) :
    ∃ q ∈ (op.apply env entries).2, ∃ deadline, reviewDeadline q = some deadline ∧
      ∀ moment ≥ deadline, ∀ clock, ¬ Served (op.apply env entries).2 q moment clock := by
  cases op with
  | add row => cases hdated
  | decision op =>
    cases op with
    | releaseApproval id token error =>
      obtain ⟨p, hp, hdated⟩ := (Option.any_eq_true _ _).mp hdated
      simp only [Bool.and_eq_true, decide_eq_true_eq, Option.isSome_iff_exists] at hdated
      obtain ⟨⟨⟨hstatus, htoken⟩, hintent⟩, deadline, hdeadline⟩ := hdated
      have hid : p.id = id := id_of_find hp
      have hnext : ((QueueOp.decision (.releaseApproval id token error)).apply env entries).2 =
          replaceFirst id (Released p (errorDetail error)) entries := by
        simp [QueueOp.apply, Op.apply, releaseApproval, hp, hstatus, htoken]
      have hsameId : (Released p (errorDetail error)).id = id := hid
      have hrow : find (replaceFirst id (Released p (errorDetail error)) entries)
          (Released p (errorDetail error)).id = some (Released p (errorDetail error)) := by
        rw [hsameId, find_replaceFirst hsameId hp, if_pos rfl]
      rw [hnext]
      refine ⟨Released p (errorDetail error), mem_of_find hrow, deadline, hdeadline, ?_⟩
      intro moment hmoment clock hserved
      refine (served_iff hrow).mp hserved ⟨.inr ⟨rfl, ?_⟩, hintent⟩
      have hsame : reviewDeadline (Released p (errorDetail error)) = some deadline := hdeadline
      simpa [proposalIsExpired_eq, hsame] using hmoment
    | _ => cases hdated

theorem unstuck_nil : Unstuck [] where
  distinct := nodup_nil
  pending := by simp
  expired := by simp

theorem apply_of_change {val : Val} {next : List Proposal}
    (h : queueInterface.change op env entries = .ok (val, next)) :
    (op.apply env entries).2 = next := by
  have hpair : op.apply env entries = (val, next) := Except.ok.inj h
  exact congrArg Prod.snd hpair

variable {s : CasCell.State queueInterface}

theorem unstuck_of_reaches (h : queueCell.Reaches keepsDated s) : Unstuck s.doc := by
  refine CasCell.doc_invariant (I := queueInterface) (D := Unstuck) unstuck_nil ?_ h
  intro s e op env val next hunstuck hkeeps hc hadm hchange
  simp only [keepsDated, CasCell.committed_of_commits hc] at hkeeps
  exact apply_of_change hchange ▸ hunstuck.apply hadm hkeeps

theorem distinct_of_reaches (h : queueCell.Reaches anyStep s) : Distinct s.doc := by
  refine CasCell.doc_invariant (I := queueInterface) (P := anyStep) (D := Distinct)
    unstuck_nil.distinct ?_ h
  intro s e op env val next hdistinct _ _ hadm hchange
  exact apply_of_change hchange ▸ hdistinct.apply hadm

/-- **Which proposals get stuck.**  Under any number of drafters and operators, calls that
fail, lose their race or are written unseen, at every moment:

* a row can be claimed as it should exactly if it is not both lapsed and claimed for
  approval before;
* over the runs that return no failed approval of a proposal with a deadline to the queue,
  no row is ever stuck;
* a step that does return one leaves a row that is stuck from its deadline on. -/
theorem no_proposal_stuck {s : CasCell.State queueInterface} (h : queueCell.Reaches anyStep s) :
    (∀ p ∈ s.doc, ∀ moment env,
      (Served s.doc p moment env ↔
        ¬ (presentedExpired p moment ∧ p.decisionIntent = some .approve))) ∧
    (queueCell.Reaches keepsDated s → ∀ p ∈ s.doc, ∀ moment env, Served s.doc p moment env) ∧
    (∀ e t, queueCell.step s e = some t → ¬ keepsDated s e →
      ∃ q ∈ t.doc, ∃ deadline, reviewDeadline q = some deadline ∧
        ∀ moment ≥ deadline, ∀ env, ¬ Served t.doc q moment env) := by
  refine ⟨?_, ?_, ?_⟩
  · intro p hp moment env
    exact served_iff (find_of_mem (distinct_of_reaches h) hp)
  · intro hkeeps p hp moment env
    exact (unstuck_of_reaches hkeeps).served hp moment env
  · intro e t hstep hreturns
    have hsnap : CasCell.Snapshot s := CasCell.snapshot_of_reaches h
    cases hcommit : CasCell.committed s e with
    | none => exact absurd (by simp [keepsDated, hcommit]) hreturns
    | some k =>
      simp only [keepsDated, hcommit, Bool.not_eq_false] at hreturns
      have hc := CasCell.commits_of_committed hcommit
      have hnext : (k.op.apply k.env s.doc).2 = t.doc :=
        (apply_of_change (hc.change_eq hsnap).2).trans (hc.step_eq hstep).symm
      exact hnext ▸ stuck_of_returnsDated hreturns

def datedProposal : Proposal := { sampleProposal with id := "prop-2", expiresAt := some 100 }

def emptyQueue : CasCell.State queueInterface := ⟨[], 0, fun _ => .idle⟩

def ask (op : QueueOp) (now : Time) : List (CasCell.Event queueInterface) :=
  CasCell.solo (I := queueInterface) 0 op (sampleClock now)

def failedApproval (draft : Proposal) : List (CasCell.Event queueInterface) :=
  ask (.add draft) 0 ++ ask (.decision (.claimApproval draft.id "alice" "t1" 1)) 1 ++
    ask (.decision (.releaseApproval draft.id "t1" "unavailable")) 2

def failedRow (draft : Proposal) : Proposal :=
  Released (Claimed draft "alice" "t1" .approve "" (sampleClock 1)) (errorDetail "unavailable")

instance (s : CasCell.State queueInterface) (e : CasCell.Event queueInterface) :
    Decidable (keepsDated s e) := by
  unfold keepsDated
  split <;> infer_instance

/-- The proposal without a deadline waits for a decision after its approval failed. -/
theorem no_proposal_stuck_of_retry :
    ∃ s, queueCell.Reaches keepsDated s ∧ failedRow sampleProposal ∈ s.doc ∧
      Served s.doc (failedRow sampleProposal) 3 (sampleClock 3) := by
  have hrun : (queueCell.runChecked (fun s e => decide (keepsDated s e)) emptyQueue
      (failedApproval sampleProposal)).any
        (fun (s : CasCell.State queueInterface) => decide (failedRow sampleProposal ∈ s.doc)) =
          true := by decide
  have hstart : queueCell.start emptyQueue := ⟨rfl, rfl, fun _ => rfl⟩
  obtain ⟨s, hs, hrow⟩ := Machine.reaches_of_runChecked (P := keepsDated)
    (fun s e => of_decide_eq_true) hstart hrun
  have hmem := of_decide_eq_true hrow
  have hany : queueCell.Reaches anyStep s := by
    obtain ⟨s0, es, hfirst, hthrough, hend⟩ := hs
    exact ⟨s0, es, hfirst, hthrough.mono fun _ _ _ => trivial, hend⟩
  exact ⟨s, hs, hmem, (no_proposal_stuck hany).2.1 hs _ hmem 3 (sampleClock 3)⟩

/-- The one with a deadline is stuck once it lapses: it can be approved no more, and not be
rejected either. -/
theorem lapsed_approval_stuck :
    ∃ s, queueCell.Reaches anyStep s ∧ failedRow datedProposal ∈ s.doc ∧
      presentedExpired (failedRow datedProposal) 100 ∧
      approvalOutcome s.doc (failedRow datedProposal) "bob" "t2" 100 (sampleClock 100) = .expired ∧
      rejectionOutcome s.doc (failedRow datedProposal) "bob" "t2" none 100 (sampleClock 100) =
        .conflict ∧
      ¬ Served s.doc (failedRow datedProposal) 100 (sampleClock 100) := by
  have hrun : (queueCell.run emptyQueue (failedApproval datedProposal)).any
      (fun (s : CasCell.State queueInterface) =>
      decide (failedRow datedProposal ∈ s.doc) &&
      decide (approvalOutcome s.doc (failedRow datedProposal) "bob" "t2" 100 (sampleClock 100) =
        .expired) &&
      decide (rejectionOutcome s.doc (failedRow datedProposal) "bob" "t2" none 100
        (sampleClock 100) = .conflict)) = true := by decide
  obtain ⟨s, -, hs, hrow⟩ := Machine.reaches_of_run queueCell _ emptyQueue _
    ⟨rfl, rfl, fun _ => rfl⟩ hrun
  simp only [Bool.and_eq_true, decide_eq_true_eq] at hrow
  obtain ⟨⟨hmem, happroval⟩, hrejection⟩ := hrow
  have hlapsed : presentedExpired (failedRow datedProposal) 100 := .inr ⟨rfl, by decide⟩
  refine ⟨s, hs, hmem, hlapsed, happroval, hrejection, fun hserved => ?_⟩
  have hclaimed := (hserved "bob" "t2" none).2 hlapsed
  rw [hrejection] at hclaimed
  cases hclaimed

/-! ### What stands in the queue -/

variable {t : CasCell.State queueInterface} {es : List (CasCell.Event queueInterface)}

/-- The lease token that the operation presents. -/
def QueueOp.token : QueueOp → Option String
  | .decision (.finalizeApproval _ _ token) | .decision (.finalizeRejection _ _ token)
  | .decision (.releaseApproval _ token _) => some token
  | _ => none

/-- The row is decided, or leased to another while the lease lasts. -/
abbrev Proposal.Stands (p : Proposal) (op : QueueOp) (env : Env) : Prop :=
  p.status ≠ .pending ∧ p.status ≠ .expired ∧
    (p.status = .applying → leaseIsStale p env.now = false ∧ p.applyingToken ≠ op.token)

theorem find_of_update {row : Proposal} {id' : String} {c : Prop} [Decidable c] {α : Type} {v w : α}
    (h : find entries id = some p) (hq : find entries id' = some q) (hid : row.id = q.id)
    (hrow : ¬ c → q ≠ p) :
    find (if c then (v, entries) else (w, replaceFirst id' row entries)).2 id = some p := by
  split
  · exact h
  · rename_i hno
    rw [find_replaceFirst (hid.trans (id_of_find hq)) hq]
    split
    · rename_i heq
      rw [heq, hq, Option.some.injEq] at h
      exact absurd h (hrow hno)
    · exact h

theorem Proposal.Stands.claimRow (h : p.Stands op env) (by_ token : String) (action : Decision)
    (reason : String) (moment : Time) :
    (claimRow p by_ token action reason moment env).1 = p := by
  obtain ⟨hpending, hexpired, hleased⟩ := h
  have hno : ¬ (p.status = .pending ∨ (p.status = .applying ∧ leaseIsStale p env.now = true) ∨
      (action = .reject ∧ p.status = .expired)) := by
    rintro (hp | ⟨hp, hstale⟩ | ⟨-, hp⟩)
    · exact hpending hp
    · rw [(hleased hp).1] at hstale
      cases hstale
    · exact hexpired hp
  unfold Proposals.claimRow
  dsimp only
  rw [if_neg hno]
  split
  · rfl
  · split <;> rfl

/-- **A row that stands is left as it is**, whatever else the operation does. -/
theorem Proposal.Stands.apply (h : p.Stands op env) (hd : Distinct entries) (hp : p ∈ entries) :
    p ∈ (op.apply env entries).2 := by
  have hfind := find_of_mem hd hp
  have hstands := h
  obtain ⟨hpending, -, hleased⟩ := hstands
  have hclaim : ∀ {id by_ token action reason moment},
      find (claimDecision id by_ token action reason moment env entries).2 p.id = some p := by
    intro id by_ token action reason moment
    unfold claimDecision
    split
    · exact hfind
    · rename_i q hq
      dsimp only
      rw [find_replaceFirst ((id_claimRow ..).trans (id_of_find hq)) hq]
      split
      · rename_i heq
        rw [← heq, hfind, Option.some.injEq] at hq
        rw [← hq, h.claimRow]
      · exact hfind
  have hfinalize : ∀ {id by_ token action}, op.token = some token →
      find (finalizeDecision id by_ token action env entries).2 p.id = some p := by
    intro id by_ token action htoken
    unfold finalizeDecision
    split
    · exact hfind
    · rename_i q hq
      refine find_of_update hfind hq rfl ?_
      rintro hno rfl
      simp only [not_or, not_not] at hno
      exact (hleased hno.1).2 (hno.2.1.trans htoken.symm)
  cases op with
  | add row => exact mem_append_left _ hp
  | decision op =>
    refine @mem_of_find p _ p.id ?_
    cases op with
    | claimApproval | claimRejection => exact hclaim
    | finalizeApproval | finalizeRejection => exact hfinalize rfl
    | releaseApproval id token error =>
      simp only [QueueOp.apply, Op.apply, releaseApproval]
      split
      · exact hfind
      · rename_i q hq
        refine find_of_update hfind hq rfl ?_
        rintro hno rfl
        simp only [not_or, not_not] at hno
        exact (hleased hno.1).2 hno.2
    | sweepExpired now limit =>
      rcases find_sweepExpired hfind with hsame | ⟨hlapsed, -⟩
      · exact hsame
      · exact absurd hlapsed hpending
    | rejectPending id by_ =>
      simp only [QueueOp.apply, Op.apply, rejectPending]
      split
      · exact hfind
      · rename_i q hq
        refine find_of_update hfind hq rfl ?_
        rintro hno rfl
        exact hpending (not_not.mp hno)

/-- The row stands against what the step commits. -/
abbrev standsIn (p : Proposal) (s : CasCell.State queueInterface)
    (e : CasCell.Event queueInterface) : Prop :=
  (CasCell.committed s e).all (fun k => decide (p.Stands k.op k.env)) = true

/-- **Nothing in the queue is lost, and a lease is exclusive.**  Under any number of drafters
and operators the rows stay in their places, no two of one identifier.  A row that was decided
stays as it is for good, and a leased one as long as the lease lasts and its holder does not
come back; when it does, it can finalise its decision. -/
theorem rows_stand (h : queueCell.Reaches anyStep s) (hrun : queueCell.run s es = some t) :
    Distinct t.doc ∧ s.doc.map Proposal.id <+: t.doc.map Proposal.id ∧
      ∀ p ∈ s.doc, p.status = .approved ∨ p.status = .rejected ∨
        queueCell.Throughout (standsIn p) s es → p ∈ t.doc ∧ ∀ by_ token action env,
          p.status = .applying → p.applyingToken = some token → p.decisionIntent = some action →
          (finalizeDecision p.id by_ token action env t.doc).1 =
            some (Finalized p by_ action env) := by
  have hsnap : CasCell.Snapshot s := CasCell.snapshot_of_reaches h
  have hall := queueCell.throughout_anyStep s es
  have hdistinct := distinct_of_reaches (h.run hrun)
  refine ⟨hdistinct, ?_, fun p hp hstands => ?_⟩
  · refine CasCell.doc_run (I := queueInterface) (P := anyStep)
      (D := fun doc => s.doc.map Proposal.id <+: doc.map Proposal.id) hsnap prefix_rfl ?_ hall hrun
    intro _ _ op env _ _ hle _ _ _ hchange
    rw [← apply_of_change hchange]
    cases op with
    | decision op => exact (map_id_apply op env _).symm ▸ hle
    | add row => exact hle.trans (by simp [QueueOp.apply])
  · have hthrough : queueCell.Throughout (standsIn p) s es := by
      rcases hstands with hdecided | hdecided | hstands
      · exact hall.mono fun s e _ => by simp [standsIn, hdecided]
      · exact hall.mono fun s e _ => by simp [standsIn, hdecided]
      · exact hstands
    have hkept : p ∈ t.doc := by
      refine (CasCell.doc_run (I := queueInterface) (P := standsIn p) (D := fun doc =>
        Distinct doc ∧ p ∈ doc) hsnap ⟨distinct_of_reaches h, hp⟩ ?_ hthrough hrun).2
      rintro s e op env val next ⟨hd, hp⟩ hstands hc hadm hchange
      simp only [standsIn, CasCell.committed_of_commits hc, Option.all_some, decide_eq_true_eq]
        at hstands
      exact apply_of_change hchange ▸ ⟨hd.apply hadm, hstands.apply hd hp⟩
    refine ⟨hkept, fun by_ token action env happlying htoken hintent => ?_⟩
    simp [finalizeDecision, find_of_mem hdistinct hkept, happlying, htoken, hintent]

def leasedRow : Proposal := Claimed sampleProposal "alice" "t1" .approve "" (sampleClock 1)

/-- What `bob` tries while `alice` holds the lease. -/
def rivals : List (CasCell.Event queueInterface) :=
  ask (.decision (.claimApproval "prop-1" "bob" "t2" 2)) 2 ++
    ask (.decision (.finalizeApproval "prop-1" "bob" "t2")) 3 ++
      ask (.decision (.rejectPending "prop-1" "bob")) 4

theorem rows_stand_of_rivals :
    ∃ s t, queueCell.Reaches anyStep s ∧ queueCell.run s rivals = some t ∧
      (finalizeDecision "prop-1" "alice" "t1" .approve (sampleClock 5) t.doc).1 =
        some (Finalized leasedRow "alice" .approve (sampleClock 5)) := by
  have hrun : (queueCell.run emptyQueue (ask (.add sampleProposal) 0 ++
      ask (.decision (.claimApproval "prop-1" "alice" "t1" 1)) 1)).any
        (fun s => decide (leasedRow ∈ s.doc) && (decide (queueCell.Throughout (standsIn leasedRow)
          s rivals) && (queueCell.run s rivals).isSome)) = true := by decide
  obtain ⟨s, -, hs, hlater⟩ := Machine.reaches_of_run queueCell _ emptyQueue _
    ⟨rfl, rfl, fun _ => rfl⟩ hrun
  simp only [Bool.and_eq_true, decide_eq_true_eq, Option.isSome_iff_exists] at hlater
  obtain ⟨hrow, hall, t, ht⟩ := hlater
  obtain ⟨-, hfinal⟩ := (rows_stand hs ht).2.2 leasedRow hrow (.inr (.inr hall))
  exact ⟨s, t, hs, ht, hfinal "alice" "t1" .approve (sampleClock 5) rfl rfl rfl⟩

end AgenticKibana.Proposals
