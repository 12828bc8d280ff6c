import AgenticKibana.Jobs.Model

/-!
# What the row operations keep

Two facts about every row function of `Jobs.Model`: it leaves the header of the row
alone (its identity, its submitter and the authority it was admitted under), and
it writes only what the record model accepts, so that a row which validated when
it was read validates when it is read again.
-/

namespace AgenticKibana.Jobs

open AgenticKibana.Library List

structure JobHeader where
  jobId : String
  kind : JobKind
  actor : String
  actorGeneration : String
  createdAt : String
  requestFingerprint : String
  idempotencyKeyHash : String
  requiredPermissions : List JobPermission
  freshAuthorizedUntilMillis : Nat
  freshSessionId : Option String
  freshTokenVersion : Option Nat

namespace Job

def header (j : Job) : JobHeader where
  jobId := j.jobId
  kind := j.kind
  actor := j.actor
  actorGeneration := j.actorGeneration
  createdAt := j.createdAt
  requestFingerprint := j.requestFingerprint
  idempotencyKeyHash := j.idempotencyKeyHash
  requiredPermissions := j.requiredPermissions
  freshAuthorizedUntilMillis := j.freshAuthorizedUntilMillis
  freshSessionId := j.freshSessionId
  freshTokenVersion := j.freshTokenVersion

variable {j j' : Job} {env : Env} {jobError : Option String}

section

variable (h : j'.header = j.header)

include h

theorem jobId_of_header : j'.jobId = j.jobId :=
  congrArg JobHeader.jobId h

theorem hash_of_header : j'.idempotencyKeyHash = j.idempotencyKeyHash :=
  congrArg JobHeader.idempotencyKeyHash h

theorem fingerprint_of_header : j'.requestFingerprint = j.requestFingerprint :=
  congrArg JobHeader.requestFingerprint h

theorem kind_of_header : j'.kind = j.kind :=
  congrArg JobHeader.kind h

theorem headerValidates_of_header : j'.headerValidates = j.headerValidates := by
  simp only [header, JobHeader.mk.injEq] at h
  simp only [headerValidates, h]

theorem emptyIdentity_of_header : j'.emptyIdentity = j.emptyIdentity := by
  simp only [header, JobHeader.mk.injEq] at h
  simp only [emptyIdentity, h]

end

/-! ### Headers -/

theorem foldl_appendFailure {P : Job → Prop} (reason : String)
    (hstep : ∀ j ref, P j → P (appendFailure j ref reason)) (refs : List String)
    (hj : P j) : P (refs.foldl (fun j ref => j.appendFailure ref reason) j) := by
  induction refs generalizing j with
  | nil => exact hj
  | cons ref refs ih => exact ih (hstep j ref hj)

section

variable (j : Job)

@[simp] theorem transition_header (name summary : String) :
    (j.transition name summary).header = j.header := rfl

@[simp] theorem appendFailure_header (itemRef reason : String) :
    (j.appendFailure itemRef reason).header = j.header := rfl

@[simp] theorem recount_header : j.recount.header = j.header := rfl

@[simp] theorem recoverItems_header : j.recoverItems.header = j.header := by
  unfold recoverItems
  split
  · rfl
  · exact foldl_appendFailure (P := fun j' => j'.header = j.header) interruptedReason
      (fun _ _ h => h) j.ambiguous rfl

@[simp] theorem claim_header (env : Env) (owner : String) (leaseMillis : Nat) :
    (j.claim env owner leaseMillis).header = j.header := by
  unfold claim
  by_cases hstart : j.startedAt.isNone = true
  · simp only [hstart, if_true]
    rfl
  · simp only [hstart, Bool.false_eq_true, if_false]
    split
    · split <;> simp only [transition_header, recount_header, recoverItems_header] <;> rfl
    · rfl

@[simp] theorem releaseClaim_header : j.releaseClaim.header = j.header := rfl

@[simp] theorem renew_header (env : Env) (leaseMillis : Nat) :
    (j.renew env leaseMillis).header = j.header := rfl

@[simp] theorem beginItem_header (itemRef : String) : (j.beginItem itemRef).header = j.header := by
  unfold beginItem
  split <;> rfl

@[simp] theorem ensureItems_header (itemRefs : List String) (unit : String) :
    (j.ensureItems itemRefs unit).header = j.header := rfl

@[simp] theorem setProgress_header (done total : Int) (unit : String) :
    (j.setProgress done total unit).header = j.header := rfl

@[simp] theorem completeItem_header (itemRef : String) (error : Option String) :
    (j.completeItem itemRef error).header = j.header := by
  unfold completeItem
  split
  · rfl
  · rfl
  · split <;> rfl

@[simp] theorem retire_header : j.retire.header = j.header := rfl

@[simp] theorem setInboxSynced_header (synced : Bool) :
    (j.setInboxSynced synced).header = j.header := rfl

@[simp] theorem reserveArtifact_header (env : Env) (suffix : String) :
    (j.reserveArtifact env suffix).header = j.header := by
  unfold reserveArtifact
  split <;> rfl

@[simp] theorem clearPendingArtifact_header (artifactId : String) :
    (j.clearPendingArtifact artifactId).header = j.header := by
  unfold clearPendingArtifact
  split <;> rfl

@[simp] theorem attachArtifact_header (artifact : JobArtifact) :
    (j.attachArtifact artifact).header = j.header := rfl

@[simp] theorem expireArtifact_header : j.expireArtifact.header = j.header := rfl

@[simp] theorem markTransitionAudited_header (seq : Nat) :
    (j.markTransitionAudited seq).header = j.header := rfl

@[simp] theorem markTransitionsUnaudited_header :
    j.markTransitionsUnaudited.header = j.header := rfl

end

/-! ### The operations that compact -/

private theorem except_bind_ok {α β : Type} {x : Except JobError α} {f : α → Except JobError β}
    {b : β} (h : (x >>= f) = .ok b) : ∃ a, x = .ok a ∧ f a = .ok b := by
  cases x with
  | error e => cases h
  | ok a => exact ⟨a, rfl, h⟩

variable {result : Option JobResult}

theorem compactTerminal_eq (h : j.compactTerminal result = .ok j') :
    ∃ params, compactParams j.kind j.params = .ok params ∧
      j' = { j.recount with
        result := j.recount.terminalResult result
        params := params
        itemStates := .empty
        pendingArtifactId := none
        pendingArtifactSuffix := none } := by
  obtain ⟨params, hparams, hrest⟩ := except_bind_ok h
  exact ⟨params, hparams, (Except.ok.inj hrest).symm⟩

/-- The row as `finish` leaves it before the compaction. -/
def ended (j : Job) (env : Env) (status : JobStatus) (jobError : Option String) : Job :=
  let noted := match jobError.getD "" with
    | "" => j
    | reason => j.appendFailure "job" reason
  { noted.recount with
    status := status, finishedAt := some (env.isoNow j.jobId), inboxSynced := false }

variable {status : JobStatus}

theorem finish_eq (h : j.finish env status result jobError = .ok j') :
    ∃ compacted, (j.ended env status jobError).compactTerminal result = .ok compacted ∧
      j' = { compacted with
        leaseOwner := none, leaseToken := none, leaseExpiresAtMillis := 0 }.transition
          status.value (j.ended env status jobError).terminalSummary := by
  obtain ⟨compacted, hcompact, hrest⟩ := except_bind_ok h
  exact ⟨compacted, hcompact, (Except.ok.inj hrest).symm⟩

@[simp] theorem ended_header (j : Job) (env : Env) (status : JobStatus)
    (jobError : Option String) : (j.ended env status jobError).header = j.header := by
  unfold ended
  simp only
  split <;> rfl

theorem compactTerminal_header (h : j.compactTerminal result = .ok j') : j'.header = j.header := by
  obtain ⟨params, -, rfl⟩ := compactTerminal_eq h
  rfl

theorem finish_header (h : j.finish env status result jobError = .ok j') :
    j'.header = j.header := by
  obtain ⟨compacted, hcompact, rfl⟩ := finish_eq h
  have hc := compactTerminal_header hcompact
  rw [ended_header] at hc
  exact hc

def cancelAsked (j : Job) : Job :=
  if j.cancelRequested then j
  else { j with cancelRequested := true, inboxSynced := false }.transition "cancel_requested"
    "cooperative cancellation requested"

def fenceAsked (j : Job) : Job := { j with cancelRequested := true, inboxSynced := false }

def cancelledAt (j : Job) (now : String) : Job :=
  { j with status := .cancelled, finishedAt := some now }

/-- What `request_cancel` writes: the cancelled row if it was queued, the request alone
if it runs. -/
theorem requestCancel_eq (h : j.requestCancel env = .ok j') :
    (j.status = .queued ∧ ∃ compacted,
      (j.cancelAsked.cancelledAt (env.isoNow j.jobId)).compactTerminal none = .ok compacted ∧
        j' = compacted.transition "cancelled" "cancelled before execution") ∨
      (j.status ≠ .queued ∧ j' = j.cancelAsked) := by
  have hstatus : j.cancelAsked.status = j.status := by
    unfold cancelAsked
    split <;> rfl
  change (if j.cancelAsked.status = .queued then _ else _) = _ at h
  rw [hstatus] at h
  split at h
  · next hq =>
      obtain ⟨compacted, hcompact, hrest⟩ := except_bind_ok h
      exact .inl ⟨hq, compacted, hcompact, (Except.ok.inj hrest).symm⟩
  · next hq => exact .inr ⟨hq, (Except.ok.inj h).symm⟩

theorem stopForFence_eq (h : j.stopForFence env = .ok j') :
    (j.status = .queued ∧ ∃ compacted,
      (j.fenceAsked.cancelledAt (env.isoNow j.jobId)).compactTerminal none = .ok compacted ∧
        j' = compacted.transition "cancelled" "cancelled by factory reset fence") ∨
      (j.status ≠ .queued ∧ j' = j.fenceAsked) := by
  change (if j.fenceAsked.status = .queued then _ else _) = _ at h
  split at h
  · next hq =>
      obtain ⟨compacted, hcompact, hrest⟩ := except_bind_ok h
      exact .inl ⟨hq, compacted, hcompact, (Except.ok.inj hrest).symm⟩
  · next hq => exact .inr ⟨hq, (Except.ok.inj h).symm⟩

@[simp] theorem cancelAsked_header (j : Job) : j.cancelAsked.header = j.header := by
  unfold cancelAsked
  split <;> rfl

theorem requestCancel_header (h : j.requestCancel env = .ok j') :
    j'.header = j.header := by
  rcases requestCancel_eq h with ⟨-, compacted, hcompact, rfl⟩ | ⟨-, rfl⟩
  · rw [transition_header, compactTerminal_header hcompact]
    exact cancelAsked_header j
  · exact cancelAsked_header j

theorem stopForFence_header (h : j.stopForFence env = .ok j') :
    j'.header = j.header := by
  rcases stopForFence_eq h with ⟨-, compacted, hcompact, rfl⟩ | ⟨-, rfl⟩
  · rw [transition_header, compactTerminal_header hcompact]
    rfl
  · rfl

/-! ### Lease, artifact and reservation -/

def holdings (j : Job) : Option String × Option JobArtifact × Option String :=
  (j.leaseToken, j.artifact, j.pendingArtifactId)

@[simp] theorem recoverItems_holdings (j : Job) : j.recoverItems.holdings = j.holdings := by
  unfold recoverItems
  split
  · rfl
  · exact foldl_appendFailure (P := fun j' => j'.holdings = j.holdings) interruptedReason
      (fun _ _ h => h) j.ambiguous rfl

theorem claim_holdings (j : Job) (env : Env) (owner : String) (leaseMillis : Nat) :
    (j.claim env owner leaseMillis).leaseToken = some env.uuid ∧
      (j.claim env owner leaseMillis).artifact = j.artifact ∧
      ((j.claim env owner leaseMillis).pendingArtifactId = j.pendingArtifactId ∨
        (j.claim env owner leaseMillis).pendingArtifactId = none) := by
  have hrec : ∀ k : Job, (k.recoverItems.recount.transition "resumed"
      "expired worker lease recovered").holdings = k.holdings :=
    fun k => recoverItems_holdings k
  unfold claim
  by_cases hstart : j.startedAt.isNone = true
  · simp only [hstart, if_true]
    exact ⟨rfl, rfl, .inl rfl⟩
  · simp only [hstart, Bool.false_eq_true, if_false]
    split
    · split
      · have h := hrec { j with
          status := .running
          inboxSynced := false
          leaseOwner := some owner
          leaseToken := some env.uuid
          leaseExpiresAtMillis := env.nowMs + max 30000 leaseMillis }
        simp only [holdings, Prod.mk.injEq] at h
        exact ⟨h.1, h.2.1, .inl h.2.2⟩
      · have h := hrec { j with
          status := .running
          inboxSynced := false
          leaseOwner := some owner
          leaseToken := some env.uuid
          leaseExpiresAtMillis := env.nowMs + max 30000 leaseMillis
          pendingArtifactId := none
          pendingArtifactSuffix := none }
        simp only [holdings, Prod.mk.injEq] at h
        exact ⟨h.1, h.2.1, .inr h.2.2⟩
    · exact ⟨rfl, rfl, .inl rfl⟩

@[simp] theorem beginItem_holdings (j : Job) (itemRef : String) :
    (j.beginItem itemRef).holdings = j.holdings := by
  unfold beginItem
  split <;> rfl

@[simp] theorem completeItem_holdings (j : Job) (itemRef : String) (error : Option String) :
    (j.completeItem itemRef error).holdings = j.holdings := by
  unfold completeItem
  split
  · rfl
  · rfl
  · split <;> rfl

@[simp] theorem cancelAsked_holdings (j : Job) : j.cancelAsked.holdings = j.holdings := by
  unfold cancelAsked
  split <;> rfl

@[simp] theorem ended_holdings (j : Job) (env : Env) (status : JobStatus)
    (jobError : Option String) : (j.ended env status jobError).holdings = j.holdings := by
  unfold ended
  simp only
  split <;> rfl

theorem compactTerminal_holdings (h : j.compactTerminal result = .ok j') :
    j'.holdings = (j.leaseToken, j.artifact, none) := by
  obtain ⟨params, -, rfl⟩ := compactTerminal_eq h
  rfl

theorem finish_holdings (h : j.finish env status result jobError = .ok j') :
    j'.holdings = (none, j.artifact, none) := by
  obtain ⟨compacted, hcompact, rfl⟩ := finish_eq h
  have hc := compactTerminal_holdings hcompact
  have he := ended_holdings j env status jobError
  simp only [holdings, Prod.mk.injEq] at hc he
  simp only [holdings, transition, Prod.mk.injEq, true_and]
  exact ⟨hc.2.1.trans he.2.1, hc.2.2⟩

theorem requestCancel_holdings (h : j.requestCancel env = .ok j') :
    j'.holdings = j.holdings ∨ j'.holdings = (j.leaseToken, j.artifact, none) := by
  have ha := cancelAsked_holdings j
  rcases requestCancel_eq h with ⟨-, compacted, hcompact, rfl⟩ | ⟨-, rfl⟩
  · right
    have hc := compactTerminal_holdings hcompact
    simp only [holdings, Prod.mk.injEq] at ha hc
    simp only [holdings, transition, Prod.mk.injEq]
    exact ⟨hc.1.trans ha.1, hc.2.1.trans ha.2.1, hc.2.2⟩
  · exact .inl ha

theorem stopForFence_holdings (h : j.stopForFence env = .ok j') :
    j'.holdings = j.holdings ∨ j'.holdings = (j.leaseToken, j.artifact, none) := by
  rcases stopForFence_eq h with ⟨-, compacted, hcompact, rfl⟩ | ⟨-, rfl⟩
  · have hc := compactTerminal_holdings hcompact
    exact .inr hc
  · exact .inl rfl

/-! ### Field bounds -/

theorem length_sliceTo_le (n : Nat) (s : String) : (sliceTo n s).length ≤ n := by
  simp [sliceTo]

theorem lengthWithin_sliceTo (n : Nat) (s : String) : lengthWithin 0 n (sliceTo n s) = true := by
  simp [lengthWithin, length_sliceTo_le]

theorem lengthWithin_unitText (unit : String) : lengthWithin 1 40 (unitText unit) = true := by
  have hne : orText unit "items" ≠ "" := by
    unfold orText
    split
    · decide
    · assumption
  have hpos : 1 ≤ (orText unit "items").toList.length := by
    rw [Nat.one_le_iff_ne_zero, Ne, length_eq_zero_iff, String.toList_eq_nil_iff]
    exact hne
  have hlen : (unitText unit).length = min 40 (orText unit "items").toList.length := by
    simp only [unitText, sliceTo, String.length_ofList, length_take]
  have hbounds : 1 ≤ (unitText unit).length ∧ (unitText unit).length ≤ 40 := by omega
  simpa [lengthWithin] using hbounds

/-- `bodyValidates`, field by field. -/
structure BodyOk (j : Job) : Prop where
  progress : j.progress.validates = true
  failures : ∀ f ∈ j.failures, f.validates = true
  result : ∀ r, j.result = some r → r.validates = true
  leaseOwner : optLengthWithin 160 j.leaseOwner = true
  leaseToken : optLengthWithin 160 j.leaseToken = true
  transitions : ∀ t ∈ j.transitions, t.validates = true
  artifact : ∀ a, j.artifact = some a → a.validates = true
  pendingArtifactId : optLengthWithin 120 j.pendingArtifactId = true
  pendingArtifactSuffix : optLengthWithin 16 j.pendingArtifactSuffix = true

theorem bodyValidates_iff : j.bodyValidates = true ↔ j.BodyOk := by
  have hall : ∀ {α : Type} (p : α → Bool) (o : Option α),
      o.all p = true ↔ ∀ a, o = some a → p a = true := by
    intro α p o
    cases o <;> simp
  simp only [bodyValidates, Bool.and_eq_true, List.all_eq_true, hall]
  constructor
  · rintro ⟨⟨⟨⟨⟨⟨⟨⟨h1, h2⟩, h3⟩, h4⟩, h5⟩, h6⟩, h7⟩, h8⟩, h9⟩
    exact ⟨h1, h2, h3, h4, h5, h6, h7, h8, h9⟩
  · rintro ⟨h1, h2, h3, h4, h5, h6, h7, h8, h9⟩
    exact ⟨⟨⟨⟨⟨⟨⟨⟨h1, h2⟩, h3⟩, h4⟩, h5⟩, h6⟩, h7⟩, h8⟩, h9⟩

namespace BodyOk

variable {j : Job}

section

variable (h : j.BodyOk)

include h

theorem transition {name summary : String}
    (hname : lengthWithin 1 40 name = true) : (j.transition name summary).BodyOk := by
  refine { h with transitions := ?_ }
  intro t ht
  rcases mem_append.mp ht with ht | ht
  · exact h.transitions t ht
  · obtain rfl := mem_singleton.mp ht
    simp [JobTransition.validates, hname, lengthWithin_sliceTo]

theorem appendFailure (itemRef reason : String) : (j.appendFailure itemRef reason).BodyOk := by
  refine { h with failures := ?_ }
  intro f hf
  simp only [Job.appendFailure] at hf
  split at hf
  · rcases mem_append.mp hf with hf | hf
    · exact h.failures f hf
    · obtain rfl := mem_singleton.mp hf
      simp [JobFailure.validates, lengthWithin_sliceTo]
  · exact h.failures f hf

theorem recount : j.recount.BodyOk := { h with progress := h.progress }

theorem recoverItems : j.recoverItems.BodyOk := by
  unfold Job.recoverItems
  split
  · exact { h with progress := h.progress }
  · refine foldl_appendFailure (P := BodyOk) interruptedReason
      (fun _ _ hj => hj.appendFailure _ _) j.ambiguous ?_
    exact { h with progress := h.progress }

variable {env : Env} {j' : Job}

theorem claim {owner : String} (howner : lengthWithin 0 160 owner = true)
    (huuid : lengthWithin 1 120 env.uuid = true) (leaseMillis : Nat) :
    (j.claim env owner leaseMillis).BodyOk := by
  have htoken : optLengthWithin 160 (some env.uuid) = true := by
    simp only [lengthWithin, Bool.and_eq_true, decide_eq_true_eq] at huuid
    simp only [optLengthWithin, lengthWithin, Bool.and_eq_true, decide_eq_true_eq]
    omega
  have hheld : ∀ k : Job, k.BodyOk → ({ k with
      status := .running
      inboxSynced := false
      leaseOwner := some owner
      leaseToken := some env.uuid
      leaseExpiresAtMillis := env.nowMs + max 30000 leaseMillis } : Job).BodyOk := by
    intro k hk
    exact { hk with leaseOwner := howner, leaseToken := htoken }
  unfold Job.claim
  by_cases hstart : j.startedAt.isNone = true
  · simp only [hstart, if_true]
    refine BodyOk.transition ?_ (by decide)
    exact { hheld j h with progress := h.progress }
  · simp only [hstart, Bool.false_eq_true, if_false]
    split
    · refine (BodyOk.recount (BodyOk.recoverItems ?_)).transition (by decide)
      split
      · exact hheld j h
      · exact { hheld j h with pendingArtifactId := rfl, pendingArtifactSuffix := rfl }
    · exact hheld j h

theorem releaseClaim : j.releaseClaim.BodyOk :=
  { h with leaseOwner := rfl, leaseToken := rfl }

theorem renew (env : Env) (leaseMillis : Nat) : (j.renew env leaseMillis).BodyOk :=
  { h with progress := h.progress }

theorem beginItem (itemRef : String) : (j.beginItem itemRef).BodyOk := by
  unfold Job.beginItem
  split
  · exact { h with progress := h.progress }
  · exact h

theorem ensureItems (itemRefs : List String) (unit : String) :
    (j.ensureItems itemRefs unit).BodyOk :=
  { h with progress := lengthWithin_unitText unit }

theorem setProgress (done total : Int) (unit : String) : (j.setProgress done total unit).BodyOk :=
  { h with progress := lengthWithin_unitText unit }

theorem completeItem (itemRef : String) (error : Option String) :
    (j.completeItem itemRef error).BodyOk := by
  unfold Job.completeItem
  split
  · exact h
  · exact h
  · split
    · exact { h with progress := h.progress }
    · refine BodyOk.recount (BodyOk.appendFailure ?_ _ _)
      exact { h with progress := h.progress }

variable {result : Option JobResult}

theorem compactTerminal (hresult : ∀ r, result = some r → r.validates = true)
    (hc : j.compactTerminal result = .ok j') : j'.BodyOk := by
  obtain ⟨params, -, rfl⟩ := compactTerminal_eq hc
  refine { h with result := ?_, pendingArtifactId := rfl, pendingArtifactSuffix := rfl }
  intro r hr
  simp only [terminalResult] at hr
  split at hr
  · next r0 =>
      obtain rfl := Option.some.inj hr
      exact hresult r0 rfl
  · next r0 hold =>
      obtain rfl := Option.some.inj hr
      exact h.result r0 hold
  · obtain rfl := Option.some.inj hr
    have hkind : lengthWithin 1 80 j.kind.value = true := by cases j.kind <;> decide
    simp only [JobResult.validates, Bool.and_eq_true]
    exact ⟨hkind, rfl⟩

variable {status : JobStatus}

theorem finish (hresult : ∀ r, result = some r → r.validates = true)
    (hf : j.finish env status result jobError = .ok j') : j'.BodyOk := by
  obtain ⟨compacted, hcompact, rfl⟩ := finish_eq hf
  have hended : (j.ended env status jobError).BodyOk := by
    unfold Job.ended
    simp only
    split
    · exact { h with progress := h.progress }
    · exact { h.appendFailure "job" _ with progress := h.progress }
  have hc := hended.compactTerminal hresult hcompact
  refine BodyOk.transition ?_ (by cases status <;> decide)
  exact { hc with leaseOwner := rfl, leaseToken := rfl }

theorem cancelAsked : j.cancelAsked.BodyOk := by
  unfold Job.cancelAsked
  split
  · exact h
  · refine BodyOk.transition ?_ (by decide)
    exact { h with progress := h.progress }

theorem requestCancel (hr : j.requestCancel env = .ok j') : j'.BodyOk := by
  rcases requestCancel_eq hr with ⟨-, compacted, hcompact, rfl⟩ | ⟨-, rfl⟩
  · have hasked : (j.cancelAsked.cancelledAt (env.isoNow j.jobId)).BodyOk :=
      { h.cancelAsked with progress := h.cancelAsked.progress }
    exact (hasked.compactTerminal (by simp) hcompact).transition (by decide)
  · exact h.cancelAsked

theorem stopForFence (hr : j.stopForFence env = .ok j') : j'.BodyOk := by
  rcases stopForFence_eq hr with ⟨-, compacted, hcompact, rfl⟩ | ⟨-, rfl⟩
  · have hasked : (j.fenceAsked.cancelledAt (env.isoNow j.jobId)).BodyOk :=
      { h with progress := h.progress }
    exact (hasked.compactTerminal (by simp) hcompact).transition (by decide)
  · exact { h with progress := h.progress }

theorem retire : j.retire.BodyOk := { h with progress := h.progress }

theorem setInboxSynced (synced : Bool) : (j.setInboxSynced synced).BodyOk :=
  { h with progress := h.progress }

theorem reserveArtifact (huuid : lengthWithin 1 120 env.uuid = true)
    {suffix : String} (hsuffix : suffix = ".zip") : (j.reserveArtifact env suffix).BodyOk := by
  have hid : optLengthWithin 120 (some env.uuid) = true := by
    simp only [lengthWithin, Bool.and_eq_true, decide_eq_true_eq] at huuid
    simp only [optLengthWithin, lengthWithin, Bool.and_eq_true, decide_eq_true_eq]
    omega
  have hzip : optLengthWithin 16 (some suffix) = true := by
    rw [hsuffix]
    decide
  unfold Job.reserveArtifact
  split
  · exact { h with pendingArtifactId := hid, pendingArtifactSuffix := hzip }
  · exact h

theorem clearPending : j.clearPending.BodyOk :=
  { h with pendingArtifactId := rfl, pendingArtifactSuffix := rfl }

theorem clearPendingArtifact (artifactId : String) :
    (j.clearPendingArtifact artifactId).BodyOk := by
  unfold Job.clearPendingArtifact
  split
  · exact h.clearPending
  · exact h

theorem attachArtifact {artifact : JobArtifact}
    (hart : artifact.validates = true) : (j.attachArtifact artifact).BodyOk := by
  refine { h.clearPending with artifact := ?_ }
  intro a ha
  exact Option.some.inj ha ▸ hart

theorem expireArtifact : j.expireArtifact.BodyOk := by
  refine { h with artifact := by simp [Job.expireArtifact], result := ?_ }
  intro r hr
  obtain ⟨r0, hr0, rfl⟩ := Option.map_eq_some_iff.mp hr
  have hok := h.result r0 hr0
  simp only [JobResult.validates, Bool.and_eq_true] at hok ⊢
  exact ⟨hok.1, rfl⟩

theorem markTransitionAudited (seq : Nat) : (j.markTransitionAudited seq).BodyOk := by
  have hlist : ∀ ts : List JobTransition, (∀ t ∈ ts, t.validates = true) →
      ∀ t ∈ auditFirst seq ts, t.validates = true := by
    intro ts
    induction ts with
    | nil => simp [auditFirst]
    | cons t0 ts ih =>
      intro hall t ht
      simp only [auditFirst] at ht
      split at ht
      · rcases mem_cons.mp ht with rfl | ht
        · exact hall t0 mem_cons_self
        · exact hall t (mem_cons_of_mem _ ht)
      · rcases mem_cons.mp ht with rfl | ht
        · exact hall t mem_cons_self
        · exact ih (fun t ht => hall t (mem_cons_of_mem _ ht)) t ht
  exact { h with transitions := hlist j.transitions h.transitions }

theorem markTransitionsUnaudited : j.markTransitionsUnaudited.BodyOk := by
  refine { h with transitions := ?_ }
  intro t ht
  obtain ⟨t0, ht0, rfl⟩ := List.mem_map.mp ht
  exact h.transitions t0 ht0

end

theorem factoryReceipt {current : Job} {result : JobResult} (hresult : result.validates = true)
    (appVersion buildSha : String) :
    (current.factoryReceipt env status result appVersion buildSha).BodyOk := by
  have hunit : lengthWithin 1 40 "reset" = true := by decide
  refine BodyOk.transition ?_ (by decide)
  exact { progress := hunit
          failures := by simp
          result := fun r hr => Option.some.inj hr ▸ hresult
          leaseOwner := rfl
          leaseToken := rfl
          transitions := by simp
          artifact := by simp
          pendingArtifactId := rfl
          pendingArtifactSuffix := rfl }

end BodyOk

end Job

end AgenticKibana.Jobs
