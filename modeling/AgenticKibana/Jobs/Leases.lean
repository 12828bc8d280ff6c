import AgenticKibana.Jobs.Invariant

/-!
# Leases and idempotency keys

A claim hands out a job with a fresh token, and the operations of a worker name
both.  A token that has been replaced is never installed again, so an operation
under it refuses on every document that follows, whatever its worker had read or
proposed before; and a row that has ended keeps its outcome.

The idempotency map is a bijection between the key hashes and the rows that are
not sanitized receipts, and a key that is bound answers `create` without adding a row.
-/

namespace AgenticKibana.Jobs

open AgenticKibana.Library

variable {env : Env} {j : Job} {op : Op} {token jobId : String} {doc : Document} {d : Registry}
  {id : String} {j' : Job}

theorem RowStep.leaseToken (h : RowStep env d op id j j') (ht : j'.leaseToken = some token) :
    j.leaseToken = some token ∨ token ∈ op.draws env := by
  have hsame : j'.holdings = j.holdings → j.leaseToken = some token := by
    intro hh
    simp only [Job.holdings, Prod.mk.injEq] at hh
    rw [← hh.1]
    exact ht
  cases h with
  | held _ _ hstep =>
    cases hstep with
    | released => cases ht
    | begun => exact .inl (hsame (Job.beginItem_holdings _ _))
    | completed => exact .inl (hsame (Job.completeItem_holdings _ _ _))
    | finished _ hended =>
      have hh := Job.finish_holdings hended
      simp only [Job.holdings, Prod.mk.injEq] at hh
      rw [hh.1] at ht
      cases ht
    | reserved =>
      unfold Job.reserveArtifact at ht
      split at ht <;> exact .inl ht
    | cleared =>
      unfold Job.clearPendingArtifact at ht
      split at ht <;> exact .inl ht
    | _ => exact .inl ht
  | claimed hop hcand =>
    subst hop
    rw [(Job.claim_holdings _ _ _ _).1] at ht
    exact .inr (by simp [Op.draws, Option.some.inj ht])
  | cancelled _ _ hnext =>
    rcases Job.requestCancel_holdings hnext with hh | hh
    · exact .inl (hsame hh)
    · simp only [Job.holdings, Prod.mk.injEq] at hh
      exact .inl (hh.1 ▸ ht)
  | stopped _ _ _ hnext =>
    rcases Job.stopForFence_holdings hnext with hh | hh
    · exact .inl (hsame hh)
    · simp only [Job.holdings, Prod.mk.injEq] at hh
      exact .inl (hh.1 ▸ ht)
  | _ => exact .inl ht

structure Stale (jobId token : String) (doc : Document) : Prop where
  drawn : token ∈ doc.issued
  replaced : ∀ j, doc.registry.jobs.get? jobId = some j → j.leaseToken ≠ some token

variable {doc' : Document} {val : Val}

theorem stale_step (hs : Sound doc) (hst : Stale jobId token doc)
    (hadm : op.admissible env doc = true) (ho : Outcome env doc.registry op val doc'.registry)
    (hissued : doc'.issued = doc.issued ++ op.draws env) : Stale jobId token doc' where
  drawn := by
    rw [hissued]
    exact List.mem_append_left _ hst.drawn
  replaced j' hget ht := by
    cases outcome_rows hs.keyed hs.keys ho hget with
    | stepped hj hstep =>
      rcases hstep.leaseToken ht with hold | hdrawn
      · exact hst.replaced _ hj hold
      · exact (draws_fresh hadm hdrawn).1 hst.drawn
    | submitted | receipt => cases ht

/-- Every operation of a lease holder checks the lease before anything else, so it
refuses under a stale token. -/
theorem refused_of_stale (hs : Sound doc)
    (hst : Stale jobId token doc) (hop : op.lease = some (jobId, token)) (env : Env) :
    ∃ err, op.change env doc = .error err := by
  have hno : ∀ job, ¬ Holds doc.registry jobId token job :=
    fun job hh => hst.replaced job hh.get hh.token
  cases hch : op.change env doc with
  | error err => exact ⟨err, rfl⟩
  | ok r =>
    exfalso
    unfold Op.change at hch
    split at hch
    · next val d' hrun =>
        have ho := outcome_of_run hs.clean hs.keyed hrun
        cases ho with
        | held hlease hholds hstep =>
          rw [hop, Option.some.injEq, Prod.mk.injEq] at hlease
          obtain ⟨rfl, rfl⟩ := hlease
          exact hno _ hholds
        | attached hholds hpending | fenced hholds hfence hfold | compacted hholds hfence hterm =>
          simp only [Op.lease, Option.some.injEq, Prod.mk.injEq] at hop
          obtain ⟨rfl, rfl⟩ := hop
          exact hno _ hholds
        | rowMissed hmissed =>
          rcases hmissed with ⟨_, _, rfl⟩ | ⟨_, _, rfl⟩ | ⟨_, _, rfl⟩ <;> cases hop
        | _ => cases hop
    · cases hch

structure SameOutcome (j j' : Job) : Prop where
  status : j'.status = j.status
  counts : j'.result.map JobResult.counts = j.result.map JobResult.counts
  itemStates : j'.itemStates = j.itemStates
  failures : j'.failures = j.failures
  failureCount : j'.failureCount = j.failureCount

theorem SameOutcome.trans {k l : Job} (h : SameOutcome j k) (h' : SameOutcome k l) :
    SameOutcome j l where
  status := h'.status.trans h.status
  counts := h'.counts.trans h.counts
  itemStates := h'.itemStates.trans h.itemStates
  failures := h'.failures.trans h.failures
  failureCount := h'.failureCount.trans h.failureCount

theorem RowStep.sameOutcome (h : RowStep env d op id j j') (hterm : j.status.terminal = true) :
    SameOutcome j j' := by
  have hrunning : j.status ≠ .running := by
    intro hr
    rw [hr] at hterm
    cases hterm
  cases h with
  | held _ hholds _ | attached _ hholds _ => exact absurd hholds.running hrunning
  | retired _ hrun => exact absurd hrun hrunning
  | cancelled _ hnot _ | stopped _ _ hnot _ =>
    rw [hterm] at hnot
    cases hnot
  | claimed _ hcand =>
    have hclaim := (List.mem_filter.mp hcand).2
    simp only [Job.claimable, Bool.and_eq_true, Bool.or_eq_true, decide_eq_true_eq] at hclaim
    rcases hclaim.2 with hq | ⟨hr, -⟩
    · rw [hq] at hterm
      cases hterm
    · exact absurd hr hrunning
  | expired =>
    refine ⟨rfl, ?_, rfl, rfl, rfl⟩
    simp only [Job.expireArtifact, Option.map_map]
    rfl
  | _ => exact ⟨rfl, rfl, rfl, rfl, rfl⟩

structure Settled (jobId : String) (ended : Job) (doc : Document) : Prop where
  drawn : jobId ∈ doc.issued
  terminal : ended.status.terminal = true
  same : ∀ j, doc.registry.jobs.get? jobId = some j → SameOutcome ended j

theorem settled_step {ended : Job} (hs : Sound doc) (hset : Settled jobId ended doc)
    (hadm : op.admissible env doc = true) (ho : Outcome env doc.registry op val doc'.registry)
    (hissued : doc'.issued = doc.issued ++ op.draws env) : Settled jobId ended doc' where
  drawn := by
    rw [hissued]
    exact List.mem_append_left _ hset.drawn
  terminal := hset.terminal
  same j' hget := by
    cases outcome_rows hs.keyed hs.keys ho hget with
    | stepped hj hstep =>
      have hold := hset.same _ hj
      exact hold.trans (hstep.sameOutcome (hold.status ▸ hset.terminal))
    | submitted hop hid =>
      -- job ids are not drawn twice
      subst hop hid
      exact absurd hset.drawn (draws_fresh hadm (by simp [Op.draws])).1
    | receipt hop hholds hterm =>
      have hold := hset.same _ hholds.get
      have := hset.terminal
      rw [← hold.status, hholds.running] at this
      cases this

def handedOut (s : CellState) (e : CellEvent) : Option (String × String) :=
  match CasCell.committed s e with
  | some ⟨.claimNext _ _, _, .claimed (some (job, token)), _⟩ => some (job.jobId, token)
  | _ => none

variable {s : CellState} {e : CellEvent}

theorem commits_of_handedOut (h : handedOut s e = some (jobId, token)) :
    ∃ owner leaseMillis env job next, job.jobId = jobId ∧
      CasCell.Commits s e (.claimNext owner leaseMillis) env
        (.claimed (some (job, token))) next := by
  unfold handedOut at h
  split at h
  · next owner leaseMillis env job token' next hcommit =>
      simp only [Option.some.injEq, Prod.mk.injEq] at h
      obtain ⟨rfl, rfl⟩ := h
      exact ⟨owner, leaseMillis, env, job, next, rfl, CasCell.commits_of_committed hcommit⟩
  · cases h

theorem claim_installs {t : CellState} (hreach : registryCell.Reaches Machine.anyStep s)
    (h : handedOut s e = some (jobId, token)) (hstep : registryCell.step s e = some t) :
    token ∉ s.doc.issued ∧ token ∈ t.doc.issued ∧
      ∃ job, t.doc.registry.jobs.get? jobId = some job ∧ job.leaseToken = some token := by
  obtain ⟨owner, leaseMillis, env, job, next, rfl, hc⟩ := commits_of_handedOut h
  obtain ⟨hadm, ho, hissued, -⟩ :=
    commit_outcome (sound_of_cell hreach) (CasCell.snapshot_of_reaches hreach) hc
  rw [hc.step_eq hstep]
  generalize hd' : next.registry = d' at ho
  generalize hval : Val.claimed (some (job, token)) = val at ho
  cases ho with
  | @claimed owner leaseMillis job' hfirst =>
    simp only [Val.claimed.injEq, Option.some.injEq, Prod.mk.injEq] at hval
    obtain ⟨rfl, rfl⟩ := hval
    have hdrawn : env.uuid ∈ (Op.claimNext owner leaseMillis).draws env := by simp [Op.draws]
    refine ⟨(draws_fresh hadm hdrawn).1, ?_, _, ?_,
      (Job.claim_holdings job' env owner leaseMillis).1⟩
    · rw [hissued]
      exact List.mem_append_right _ hdrawn
    · rw [write_get?, if_pos rfl]
  | idle => cases hval
  | rowMissed hmissed => rcases hmissed with ⟨_, _, h⟩ | ⟨_, _, h⟩ | ⟨_, _, h⟩ <;> cases h
  | held hlease => cases hlease

/-- **Leases are exclusive, and a worker whose lease was taken over is harmless.**
In every state of every run of clients over the shared document:

* at most one token is accepted for a job;
* once a job has been handed out under `token` and later again, every operation under
  `token` refuses, and no step of a client that is in the middle of one changes the
  document or returns to it, however early its read was;
* a job that has ended keeps its outcome for as long as its row exists. -/
theorem job_leases_exclusive :
    (∀ s, registryCell.Reaches Machine.anyStep s → ∀ jobId token token' job job',
      s.doc.registry.owned jobId token = .ok job → s.doc.registry.owned jobId token' = .ok job' →
      token = token') ∧
    (∀ s1 e1 s2 es s3 e2 s4 es' s5 jobId token token',
      registryCell.Reaches Machine.anyStep s1 →
      handedOut s1 e1 = some (jobId, token) → registryCell.step s1 e1 = some s2 →
      registryCell.run s2 es = some s3 →
      handedOut s3 e2 = some (jobId, token') → registryCell.step s3 e2 = some s4 →
      registryCell.run s4 es' = some s5 →
      ∀ op : Op, op.lease = some (jobId, token) →
        (∀ env, ∃ err, op.change env s5.doc = .error err) ∧
        ∀ e t, registryCell.step s5 e = some t → (s5.phase e.client).operation = some op →
          t.doc = s5.doc ∧ ∀ val, t.phase e.client ≠ .returned val) ∧
    (∀ s es t jobId ended, registryCell.Reaches Machine.anyStep s →
      s.doc.registry.jobs.get? jobId = some ended → ended.status.terminal = true →
      registryCell.run s es = some t →
      ∀ j, t.doc.registry.jobs.get? jobId = some j → SameOutcome ended j) := by
  refine ⟨?_, ?_, ?_⟩
  · intro s _ jobId token token' job job' h h'
    obtain ⟨hget, htok, -⟩ := owned_eq_ok.mp h
    obtain ⟨hget', htok', -⟩ := owned_eq_ok.mp h'
    rw [hget, Option.some.injEq] at hget'
    rw [← hget', htok, Option.some.injEq] at htok'
    exact htok'
  · intro s1 e1 s2 es s3 e2 s4 es' s5 jobId token token' h1 hh1 hst1 hrun hh2 hst2 hrun' op hop
    have h2 := h1.step trivial hst1
    have h3 : registryCell.Reaches Machine.anyStep s3 := h2.run hrun
    have h4 := h3.step trivial hst2
    have h5 : registryCell.Reaches Machine.anyStep s5 := h4.run hrun'
    -- the first token was drawn before the second claim drew its own
    have hdrawn : token ∈ s3.doc.issued := by
      refine document_run (D := fun doc => token ∈ doc.issued) ?_ h2
        (claim_installs h1 hh1 hst1).2.1 hrun
      intro doc doc' op env val _ hmem _ _ hissued
      rw [hissued]
      exact List.mem_append_left _ hmem
    obtain ⟨hfresh, -, job, hget, htok⟩ := claim_installs h3 hh2 hst2
    have hne : token ≠ token' := fun heq => hfresh (heq ▸ hdrawn)
    have hstale4 : Stale jobId token s4.doc := by
      constructor
      · rcases cell_step (sound_of_cell h3) (CasCell.snapshot_of_reaches h3) hst2 with
          hdoc | ⟨_, _, _, -, -, -, hissued⟩
        · rw [hdoc]
          exact hdrawn
        · rw [hissued]
          exact List.mem_append_left _ hdrawn
      · intro j hj
        rw [hget, Option.some.injEq] at hj
        rw [← hj, htok, Ne, Option.some.injEq]
        exact fun heq => hne heq.symm
    have hstale : Stale jobId token s5.doc :=
      document_run (fun _ _ _ _ _ hs hD hadm ho hi => stale_step hs hD hadm ho hi) h4 hstale4 hrun'
    have hsound := sound_of_cell h5
    refine ⟨refused_of_stale hsound hstale hop, fun e t hst hcall => ?_⟩
    have hno : ∀ env val next, ¬ CasCell.Commits s5 e op env val next := by
      intro env val next hc
      obtain ⟨err, herr⟩ := refused_of_stale hsound hstale hop env
      have hchange : op.change env s5.doc = .ok (val, next) :=
        (hc.change_eq (CasCell.snapshot_of_reaches h5)).2
      rw [herr] at hchange
      cases hchange
    refine ⟨?_, fun val hret => ?_⟩
    · rcases CasCell.step_doc hst with ⟨hdoc, -⟩ | ⟨op', env, val, hc, -⟩
      · exact hdoc
      · have hsame := hc.operation
        rw [hcall, Option.some.injEq] at hsame
        exact absurd (hsame ▸ hc) (hno env val _)
    · obtain ⟨env, hc⟩ := CasCell.commits_of_returned hst hcall hret
      exact hno env val _ hc
  · intro s es t jobId ended h hget hterm hrun
    have hs := sound_of_cell h
    have hset : Settled jobId ended s.doc := by
      refine ⟨hs.id_issued hget, hterm, fun j hj => ?_⟩
      rw [hget, Option.some.injEq] at hj
      exact hj ▸ ⟨rfl, rfl, rfl, rfl, rfl⟩
    exact (document_run (fun _ _ _ _ _ hs hD hadm ho hi => settled_step hs hD hadm ho hi) h hset
      hrun).same

/-- Two workers and one job: the second takes over when the lease of the first has
expired, and the late write of the first is refused. -/
theorem job_leases_exclusive_of_one_takeover :
    ∃ s : CellState, registryCell.Reaches Machine.anyStep s ∧
      ∀ env, ∃ err, (Op.beginItem "job-1" "t1" "factory").change env s.doc = .error err := by
  have hrun : ((registryCell.run quietCell
      (CasCell.solo (I := registryInterface) 0 (.create (sampleReset "job-1" "now" 'a'))
        (sampleEnv 0 "u") ++
        [.call 1 (.claimNext "w1" 30000), .read 1 (sampleEnv 0 "t1")])).any fun s1 =>
      decide (handedOut s1 (.put 1) = some ("job-1", "t1")) &&
        (registryCell.step s1 (.put 1)).any fun s2 =>
          (registryCell.run s2 [.call 2 (.claimNext "w2" 30000),
            .read 2 (sampleEnv 30001 "t2")]).any fun s3 =>
            decide (handedOut s3 (.put 2) = some ("job-1", "t2")) &&
              (registryCell.step s3 (.put 2)).isSome) = true := by decide
  simp only [Option.any_eq_true, Bool.and_eq_true, decide_eq_true_eq,
    Option.isSome_iff_exists] at hrun
  obtain ⟨s1, hrun1, hh1, s2, hstep1, s3, hrun2, hh2, s4, hstep2⟩ := hrun
  have h1 : registryCell.Reaches Machine.anyStep s1 :=
    ⟨quietCell, _, ⟨rfl, rfl, fun _ => rfl⟩, registryCell.throughout_anyStep _ _, hrun1⟩
  have h2 : registryCell.Reaches Machine.anyStep s2 := h1.step trivial hstep1
  have h3 : registryCell.Reaches Machine.anyStep s3 := h2.run hrun2
  refine ⟨s4, h3.step trivial hstep2, fun env => ?_⟩
  exact (job_leases_exclusive.2.1 s1 (.put 1) s2 _ s3 (.put 2) s4 [] s4 "job-1" "t1" "t2" h1 hh1
    hstep1 hrun2 hh2 hstep2 rfl (.beginItem "job-1" "t1" "factory") rfl).1 env

/-! ### The idempotency registry -/

structure IdempotencyBijection (d : Registry) : Prop where
  names : ∀ keyHash id, d.idempotency.get? keyHash = some id →
    ∃ j, d.jobs.get? id = some j ∧ j.idempotencyKeyHash = keyHash ∧ j.validReceipt = false
  named : ∀ id j, d.jobs.get? id = some j → j.validReceipt = false →
    d.idempotency.get? j.idempotencyKeyHash = some id
  oneKey : ∀ keyHash keyHash' id, d.idempotency.get? keyHash = some id →
    d.idempotency.get? keyHash' = some id → keyHash = keyHash'

theorem validReceipt_iff_hash_empty (hv : j.validates = true) :
    j.validReceipt = true ↔ j.idempotencyKeyHash = "" := by
  constructor
  · intro hr
    simp only [Job.validReceipt, Bool.and_eq_true, decide_eq_true_eq] at hr
    exact hr.1.1.1.1.1.1.1.1.1.1.1.1.1.1.2
  · intro hh
    exact (validates_iff.mp hv).2.2 (by simp [Job.emptyIdentity, hh])

theorem idempotencyBijection_of_sound (hs : Sound doc) : IdempotencyBijection doc.registry where
  names keyHash id hget := by
    obtain ⟨j, hj, hh, hne⟩ := (hs.keys keyHash id).mp hget
    refine ⟨j, hj, hh, ?_⟩
    rw [Bool.eq_false_iff, Ne, validReceipt_iff_hash_empty (hs.valid id j hj), hh]
    exact hne
  named id j hj hr := by
    refine (hs.keys _ id).mpr ⟨j, hj, rfl, ?_⟩
    rw [Bool.eq_false_iff, Ne, validReceipt_iff_hash_empty (hs.valid id j hj)] at hr
    exact hr
  oneKey keyHash keyHash' id hget hget' := by
    obtain ⟨j, hj, hh, -⟩ := (hs.keys keyHash id).mp hget
    obtain ⟨j', hj', hh', -⟩ := (hs.keys keyHash' id).mp hget'
    rw [hj, Option.some.injEq] at hj'
    rw [← hh, ← hh', hj']

theorem boundTo_of_get? (hs : Sound doc) {keyHash : String}
    (hget : doc.registry.idempotency.get? keyHash = some id) :
    doc.registry.boundTo keyHash = some id := by
  obtain ⟨j, hj, -⟩ := (hs.keys keyHash id).mp hget
  simp [Registry.boundTo, hget, hs.id_ne_empty hj]

/-- A bound key with the request it was bound for returns the row and writes the
registry back as it was; with another request it is a conflict. -/
theorem create_of_bound (hs : Sound doc) {s : Submission} {existing : Job}
    (hget : doc.registry.idempotency.get? s.idempotencyKeyHash = some id)
    (hrow : doc.registry.jobs.get? id = some existing) :
    (existing.requestFingerprint = s.requestFingerprint →
      create doc.registry env s.job = .ok ((existing, false, []), doc.registry)) ∧
    (existing.requestFingerprint ≠ s.requestFingerprint →
      create doc.registry env s.job = .error (.jobConflict keyConflictMessage)) := by
  have hbound : doc.registry.boundTo s.job.idempotencyKeyHash = some id := boundTo_of_get? hs hget
  rw [create, mutate_of_clean hs.clean]
  constructor
  · intro hprint
    have hsame : existing.requestFingerprint = s.job.requestFingerprint := hprint
    simp [hbound, hrow, hsame]
  · intro hprint
    have hdiff : ¬ existing.requestFingerprint = s.job.requestFingerprint := hprint
    simp [hbound, hrow, hdiff]

/-- **The idempotency registry invariant.**  In every state a sequence of operations
reaches, the map is a bijection between its keys and the rows that are not receipts,
and a hash that is bound answers `create` with the row it names, adding none, or with
a conflict that writes nothing. -/
theorem idempotency_registry_invariant {doc : Document}
    (h : registryMachine.Reaches Machine.anyStep doc) :
    IdempotencyBijection doc.registry ∧
      ∀ (s : Submission) (env : Env) (id : String),
        doc.registry.idempotency.get? s.idempotencyKeyHash = some id →
        ∃ existing, doc.registry.jobs.get? id = some existing ∧
          (existing.requestFingerprint = s.requestFingerprint →
            create doc.registry env s.job = .ok ((existing, false, []), doc.registry)) ∧
          (existing.requestFingerprint ≠ s.requestFingerprint →
            create doc.registry env s.job = .error (.jobConflict keyConflictMessage)) := by
  have hs := sound_of_reaches h
  refine ⟨idempotencyBijection_of_sound hs, fun s env id hget => ?_⟩
  obtain ⟨existing, hrow, -⟩ := (hs.keys _ _).mp hget
  exact ⟨existing, hrow, create_of_bound hs hget hrow⟩

/-- One submission: its key names its row, and answers a second submission with it. -/
theorem idempotency_registry_invariant_of_one_submission :
    ∃ doc : Document, registryMachine.Reaches Machine.anyStep doc ∧
      doc.registry.idempotency.get? (sampleDigest 'a') = some "job-1" ∧
      IdempotencyBijection doc.registry ∧
      ∃ existing, doc.registry.jobs.get? "job-1" = some existing ∧
        (existing.requestFingerprint = sampleDigest 'a' →
          create doc.registry (sampleEnv 5 "u") (sampleReset "job-2" "later" 'a').job =
            .ok ((existing, false, []), doc.registry)) := by
  obtain ⟨doc, -, hreach, hget⟩ := Machine.reaches_of_run registryMachine
    (fun doc => doc.registry.idempotency.get? (sampleDigest 'a') = some "job-1") emptyDocument
    [(.create (sampleReset "job-1" "now" 'a'), sampleEnv 0 "u")] rfl (by decide)
  obtain ⟨hbij, hcreate⟩ := idempotency_registry_invariant hreach
  have hbound := of_decide_eq_true hget
  obtain ⟨existing, hrow, hsame, -⟩ :=
    hcreate (sampleReset "job-2" "later" 'a') (sampleEnv 5 "u") "job-1" hbound
  exact ⟨doc, hreach, hbound, hbij, existing, hrow, hsame⟩

end AgenticKibana.Jobs
