import AgenticKibana.Jobs.Passes

/-!
# The registry invariant

What holds of the registry document in every reachable state: rows stand under
their own ids and validate when they are read back, the idempotency map mirrors
them, and every identifier a row mentions has been drawn.

`RowStep` collects what any operation can do to one row in place, and
`outcome_rows` says where a row of the new registry comes from: from the row of
the same id by such a step, from a submission, or it is the receipt of a factory
reset.  Facts about single rows are proved over these.
-/

namespace AgenticKibana.Jobs

open AgenticKibana.Library Option

/-- What an operation makes of the row `job` under `id`. -/
inductive RowStep (env : Env) (d : Registry) (op : Op) (id : String) (job : Job) : Job → Prop
  | same : RowStep env d op id job job
  | held {token : String} {next : Job} (hlease : op.lease = some (id, token))
      (hholds : Holds d id token job) (hstep : HeldStep env job op next) :
      RowStep env d op id job next
  | claimed {owner : String} {leaseMillis : Nat} (hop : op = .claimNext owner leaseMillis)
      (hcand : job ∈ claimCandidates d env.nowMs) :
      RowStep env d op id job (job.claim env owner leaseMillis)
  | cancelled {actor : String} {generation : Option String} {next : Job}
      (hop : op = .requestCancel id actor generation) (hterm : job.status.terminal = false)
      (hnext : job.requestCancel env = .ok next)
      (hheld : job.heldBy env actor generation = true) : RowStep env d op id job next
  | retired {actor generation : String} (hop : op = .retireActor actor generation)
      (hrunning : job.status = .running) : RowStep env d op id job job.retire
  | inboxSynced {synced : Bool} (hop : op = .setInboxSynced id synced) :
      RowStep env d op id job (job.setInboxSynced synced)
  | audited {seq : Nat} (hop : op = .markTransitionAudited id seq) :
      RowStep env d op id job (job.markTransitionAudited seq)
  | unaudited {jobId : Option String} (hop : op = .markAllTransitionsUnaudited jobId) :
      RowStep env d op id job job.markTransitionsUnaudited
  | expired (hart : job.artifact.isSome = true) : RowStep env d op id job job.expireArtifact
  | attached {token : String} {artifact : JobArtifact}
      (hop : op = .attachArtifact id token artifact) (hholds : Holds d id token job)
      (hpending : job.pendingArtifactId = some artifact.artifactId) :
      RowStep env d op id job (job.attachArtifact artifact)
  | stopped {jobId token : String} {next : Job} (hop : op = .beginFactoryFence jobId token)
      (hne : id ≠ jobId) (hterm : job.status.terminal = false)
      (hnext : job.stopForFence env = .ok next) : RowStep env d op id job next

/-- **Where the rows of the new registry come from.** -/
inductive RowOrigin (env : Env) (d : Registry) (op : Op) (id : String) : Job → Prop
  | stepped {j j' : Job} (hget : d.jobs.get? id = some j) (hstep : RowStep env d op id j j') :
      RowOrigin env d op id j'
  | submitted {s : Submission} (hop : op = .create s) (hid : id = s.jobId) :
      RowOrigin env d op id s.job
  | receipt {token : String} {status : JobStatus} {result : JobResult}
      {appVersion buildSha : String} {j : Job}
      (hop : op = .factoryCompact id token status result appVersion buildSha)
      (hholds : Holds d id token j) (hterm : status.terminal = true) :
      RowOrigin env d op id (j.factoryReceipt env status result appVersion buildSha)

variable {d : Registry} {env : Env} {j j' : Job} {op : Op} {val : Val} {doc : Document}
  {x : String} {s : CellState} {id : String} {next : Job}

theorem origin_write {jobId : String} (hget : d.jobs.get? jobId = some j)
    (hstep : RowStep env d op jobId j next) (hget' : (d.write jobId next).jobs.get? id = some j') :
    RowOrigin env d op id j' := by
  rw [write_get?] at hget'
  by_cases hid : id = jobId
  · subst hid
    rw [if_pos rfl] at hget'
    obtain rfl := Option.some.inj hget'
    exact .stepped hget hstep
  · rw [if_neg hid] at hget'
    exact .stepped hget' .same

theorem claim_jobId (j : Job) (env : Env) (owner : String) (leaseMillis : Nat) :
    (j.claim env owner leaseMillis).jobId = j.jobId :=
  Job.jobId_of_header (Job.claim_header j env owner leaseMillis)

theorem mem_claimCandidates (hk : d.Keyed) {nowMs : Nat}
    (h : j ∈ claimCandidates d nowMs) : d.jobs.get? j.jobId = some j :=
  hk.values.mp (List.mem_filter.mp h).1

variable {d' : Registry}

theorem outcome_rows (hk : d.Keyed) (hm : d.KeysMatch) (ho : Outcome env d op val d')
    (hget : d'.jobs.get? id = some j') : RowOrigin env d op id j' := by
  cases ho with
  | bound | idle | cancelMissed | purgeMissed | rowMissed | fenceReleased =>
    exact .stepped hget .same
  | @created s d1 pruned hbound hfence hprune hroom =>
    have hp := pruneTerminal_spec hk hm hprune
    have hrows : ∀ r ∈ expiredAtCreate d1, d1.jobs.get? r.jobId = some r :=
      fun r hr => (mem_expiredAtCreate hp.keyed hr).1
    change ((expireArtifacts d1 (expiredAtCreate d1)).write s.job.jobId s.job).jobs.get? id
      = some j' at hget
    rw [write_get?] at hget
    by_cases hid : id = s.job.jobId
    · rw [if_pos hid] at hget
      obtain rfl := Option.some.inj hget
      exact .submitted rfl hid
    · rw [if_neg hid, expireArtifacts_get? hrows, map_eq_some_iff] at hget
      obtain ⟨j, hj, rfl⟩ := hget
      refine .stepped (hp.rows id j hj) ?_
      split
      · next hex =>
          obtain ⟨r, hr, rfl⟩ := hex
          obtain ⟨hgr, -, hart⟩ := mem_expiredAtCreate hp.keyed hr
          rw [hgr, Option.some.injEq] at hj
          exact .expired (hj ▸ hart)
      · exact .same
  | claimed hfirst =>
    have hmem := firstMin_mem hfirst
    rw [claim_jobId] at hget
    exact origin_write (mem_claimCandidates hk hmem) (.claimed rfl hmem) hget
  | held hlease hholds hstep =>
    exact origin_write hholds.get (.held hlease hholds hstep) hget
  | cancelled hj hheld hterm hnext => exact origin_write hj (.cancelled rfl hterm hnext hheld) hget
  | retired hfold =>
    obtain ⟨-, hrows⟩ := retireActor_rows hk hm hfold
    rw [hrows id, bind_eq_some_iff] at hget
    obtain ⟨j, hj, hret⟩ := hget
    refine .stepped hj ?_
    unfold retiredRow at hret
    split at hret
    · exact Option.some.inj hret ▸ .same
    · split at hret
      · next hrun => exact Option.some.inj hret ▸ .retired rfl hrun
      · cases hret
  | purged hj hpurge =>
    rw [drop_get?] at hget
    split at hget
    · cases hget
    · exact .stepped hget .same
  | inboxSynced hj => exact origin_write hj (.inboxSynced rfl) hget
  | audited hj => exact origin_write hj (.audited rfl) hget
  | @expired jobId artifactId job _ hj hart =>
    refine origin_write hj (.expired ?_) hget
    cases ha : job.artifact with
    | none => simp [ha] at hart
    | some a => rfl
  | unaudited =>
    simp only [Dict.get?_mapValues, map_eq_some_iff] at hget
    obtain ⟨j, hj, rfl⟩ := hget
    refine .stepped hj ?_
    split
    · exact .unaudited rfl
    · exact .same
  | @attached jobId token artifact job hholds hpending =>
    have hid := hk jobId job hholds.get
    have hk' : (d.write jobId (job.attachArtifact artifact)).Keyed := hk.write hid
    have hrows : ∀ r ∈ expiredAtAttach (d.write jobId (job.attachArtifact artifact)) jobId,
        (d.write jobId (job.attachArtifact artifact)).jobs.get? r.jobId = some r :=
      fun r hr => (mem_expiredAtAttach hk' hr).1
    rw [expireArtifacts_get? hrows, map_eq_some_iff] at hget
    obtain ⟨j, hj, rfl⟩ := hget
    rw [write_get?] at hj
    by_cases heq : id = jobId
    · subst heq
      rw [if_pos rfl] at hj
      obtain rfl := Option.some.inj hj
      refine .stepped hholds.get ?_
      rw [if_neg]
      · exact .attached rfl hholds hpending
      · rintro ⟨r, hr, hrid⟩
        exact (mem_expiredAtAttach hk' hr).2.2 hrid
    · rw [if_neg heq] at hj
      refine .stepped hj ?_
      split
      · next hex =>
          obtain ⟨r, hr, rfl⟩ := hex
          obtain ⟨hgr, hart, -⟩ := mem_expiredAtAttach hk' hr
          rw [write_get?, if_neg heq, hj, Option.some.injEq] at hgr
          exact .expired (hgr ▸ hart)
      · exact .same
  | @fenced jobId token job d1 artifacts hholds hfence hfold =>
    obtain ⟨-, hnone, hsome⟩ := beginFactoryFence_rows hk hm hfold
    change d1.jobs.get? id = some j' at hget
    cases hj : d.jobs.get? id with
    | none =>
      rw [hnone id hj] at hget
      cases hget
    | some j =>
      obtain ⟨j1, hfr, hj1⟩ := hsome id j hj
      rw [hget, Option.some.injEq] at hj1
      subst hj1
      refine .stepped hj ?_
      unfold fencedRow at hfr
      split at hfr
      · exact Except.ok.inj hfr ▸ .same
      · next hvisit =>
          rw [not_or] at hvisit
          exact .stopped rfl hvisit.1 (by simpa using hvisit.2) hfr
  | @compacted jobId token status result appVersion buildSha job hholds hfence hterm =>
    rw [Dict.get?_set] at hget
    by_cases heq : id = jobId
    · subst heq
      rw [if_pos rfl] at hget
      obtain rfl := Option.some.inj hget
      exact .receipt rfl hholds hterm
    · rw [if_neg heq] at hget
      cases hget

/-! ### Row by row -/

variable {job : Job}

theorem HeldStep.header (h : HeldStep env job op next) : next.header = job.header := by
  cases h with
  | finished _ hended => exact Job.finish_header hended
  | _ => simp

theorem RowStep.header (h : RowStep env d op id j j') : j'.header = j.header := by
  cases h with
  | held _ _ hstep => exact hstep.header
  | cancelled _ _ hnext => exact Job.requestCancel_header hnext
  | stopped _ _ _ hnext => exact Job.stopForFence_header hnext
  | _ => simp

namespace Job

theorem recoverItems_params (j : Job) :
    j.recoverItems.params = j.params ∧ j.recoverItems.status = j.status := by
  unfold recoverItems
  split
  · exact ⟨rfl, rfl⟩
  · exact foldl_appendFailure (P := fun j' => j'.params = j.params ∧ j'.status = j.status)
      interruptedReason (fun _ _ h => h) j.ambiguous ⟨rfl, rfl⟩

theorem claim_params (j : Job) (env : Env) (owner : String) (leaseMillis : Nat) :
    (j.claim env owner leaseMillis).params = j.params ∧
      (j.claim env owner leaseMillis).status = .running := by
  have hrec : ∀ k : Job,
      (k.recoverItems.recount.transition "resumed" "expired worker lease recovered").params =
        k.params ∧ (k.recoverItems.recount.transition "resumed"
          "expired worker lease recovered").status = k.status := recoverItems_params
  unfold claim
  by_cases hstart : j.startedAt.isNone = true
  · simp only [hstart, if_true]
    exact ⟨rfl, rfl⟩
  · simp only [hstart, Bool.false_eq_true, if_false]
    split
    · rw [(hrec _).1, (hrec _).2]
      split <;> exact ⟨rfl, rfl⟩
    · exact ⟨rfl, rfl⟩

theorem finish_status {status : JobStatus} {result : Option JobResult} {jobError : Option String}
    (h : j.finish env status result jobError = .ok j') :
    j'.status = status ∧ compactParams j.kind j.params = .ok j'.params := by
  obtain ⟨compacted, hcompact, rfl⟩ := finish_eq h
  obtain ⟨params, hparams, rfl⟩ := compactTerminal_eq hcompact
  unfold ended at hparams ⊢
  constructor
  · rfl
  · split at hparams <;> exact hparams

end Job

theorem RowStep.params (h : RowStep env d op id j j') :
    j'.params = j.params ∨ (j.status.terminal = false ∧ j'.status.terminal = true) := by
  cases h with
  | held _ hholds hstep =>
    cases hstep with
    | begun =>
      left
      unfold Job.beginItem
      split <;> rfl
    | completed =>
      left
      unfold Job.completeItem
      split
      · rfl
      · rfl
      · split <;> rfl
    | finished hterm hended =>
      right
      rw [hholds.running, (Job.finish_status hended).1]
      exact ⟨rfl, hterm⟩
    | reserved =>
      left
      unfold Job.reserveArtifact
      split <;> rfl
    | cleared =>
      left
      unfold Job.clearPendingArtifact
      split <;> rfl
    | _ => exact .inl rfl
  | claimed => exact .inl (Job.claim_params _ _ _ _).1
  | cancelled _ hterm hnext =>
    rcases Job.requestCancel_eq hnext with ⟨-, compacted, hcompact, rfl⟩ | ⟨-, rfl⟩
    · right
      obtain ⟨params, -, rfl⟩ := Job.compactTerminal_eq hcompact
      exact ⟨hterm, rfl⟩
    · left
      unfold Job.cancelAsked
      split <;> rfl
  | stopped _ _ hterm hnext =>
    rcases Job.stopForFence_eq hnext with ⟨-, compacted, hcompact, rfl⟩ | ⟨-, rfl⟩
    · right
      obtain ⟨params, -, rfl⟩ := Job.compactTerminal_eq hcompact
      exact ⟨hterm, rfl⟩
    · exact .inl rfl
  | _ => exact .inl rfl

theorem validates_iff :
    j.validates = true ↔
      j.headerValidates = true ∧ j.BodyOk ∧ (j.emptyIdentity = true → j.validReceipt = true) := by
  simp only [Job.validates, Bool.and_eq_true, Bool.or_eq_true, Bool.not_eq_true', and_assoc]
  rw [Job.bodyValidates_iff]
  cases j.emptyIdentity <;> simp

theorem terminal_of_emptyIdentity (hv : j.validates = true)
    (he : j.emptyIdentity = true) : j.status.terminal = true ∧ j.artifact = none := by
  have hr := (validates_iff.mp hv).2.2 he
  simp only [Job.validReceipt, Bool.and_eq_true, isNone_iff_eq_none] at hr
  exact ⟨hr.1.1.1.1.1.1.1.1.1.1.2, hr.1.1.2⟩

theorem identity_of_active (hv : j.validates = true)
    (ht : j.status.terminal = false) : j.emptyIdentity = false := by
  cases he : j.emptyIdentity with
  | false => rfl
  | true =>
    have := (terminal_of_emptyIdentity hv he).1
    rw [ht] at this
    cases this

theorem hash_ne_empty (hi : j.emptyIdentity = false) :
    j.requestFingerprint ≠ "" ∧ j.idempotencyKeyHash ≠ "" := by
  simpa [Job.emptyIdentity] using hi

theorem HeldStep.bodyOk (h : HeldStep env job op next) (hadm : op.admissible env doc = true)
    (hok : job.BodyOk) : next.BodyOk := by
  simp only [Op.admissible, Bool.and_eq_true] at hadm
  cases h with
  | released => exact hok.releaseClaim
  | renewed => exact hok.renew env _
  | begun => exact hok.beginItem _
  | ensured => exact hok.ensureItems _ _
  | progressed => exact hok.setProgress _ _ _
  | completed => exact hok.completeItem _ _
  | finished _ hended =>
    refine hok.finish ?_ hended
    intro r hr
    have hresult := hadm.2
    rw [hr] at hresult
    exact hresult
  | reserved hsuffix => exact hok.reserveArtifact hadm.2 hsuffix
  | cleared => exact hok.clearPendingArtifact _

theorem RowStep.validates (h : RowStep env d op id j j') (hadm : op.admissible env doc = true)
    (hv : j.validates = true) : j'.validates = true := by
  obtain ⟨hhead, hok, hreceipt⟩ := validates_iff.mp hv
  have hhead' : j'.headerValidates = true := (Job.headerValidates_of_header h.header).trans hhead
  have hempty : j'.emptyIdentity = j.emptyIdentity := Job.emptyIdentity_of_header h.header
  -- an active row has an identity, and keeps it
  have hactive : j.status.terminal = false → j'.BodyOk → j'.validates = true := by
    intro hterm hok'
    refine validates_iff.mpr ⟨hhead', hok', fun he => ?_⟩
    rw [hempty, identity_of_active hv hterm] at he
    cases he
  have hrunning : j.status = .running → j.status.terminal = false := fun hr => by rw [hr]; rfl
  cases h with
  | same => exact hv
  | held hlease hholds hstep => exact hactive (hrunning hholds.running) (hstep.bodyOk hadm hok)
  | claimed hop hcand =>
    subst hop
    simp only [Op.admissible, Bool.and_eq_true] at hadm
    refine hactive ?_ (hok.claim hadm.2.1 hadm.2.2 _)
    have hclaim := (List.mem_filter.mp hcand).2
    simp only [Job.claimable, Bool.and_eq_true, Bool.or_eq_true, decide_eq_true_eq] at hclaim
    rcases hclaim.2 with hq | ⟨hr, -⟩
    · rw [hq]
      rfl
    · exact hrunning hr
  | cancelled hop hterm hnext => exact hactive hterm (hok.requestCancel hnext)
  | retired hop hrun => exact hactive (hrunning hrun) hok.retire
  | inboxSynced => exact validates_iff.mpr ⟨hhead', hok.setInboxSynced _, hreceipt⟩
  | audited => exact validates_iff.mpr ⟨hhead', hok.markTransitionAudited _, hreceipt⟩
  | unaudited => exact validates_iff.mpr ⟨hhead', hok.markTransitionsUnaudited, hreceipt⟩
  | expired hart =>
    refine validates_iff.mpr ⟨hhead', hok.expireArtifact, fun he => ?_⟩
    have := (terminal_of_emptyIdentity hv (hempty ▸ he)).2
    rw [this] at hart
    cases hart
  | attached hop hholds hpending =>
    subst hop
    simp only [Op.admissible, Bool.and_eq_true] at hadm
    exact hactive (hrunning hholds.running) (hok.attachArtifact hadm.2)
  | stopped hop hne hterm hnext => exact hactive hterm (hok.stopForFence hnext)

theorem submission_validates {s : Submission} (h : s.accepted = true) :
    s.job.validates = true := by
  simp only [Submission.accepted, Bool.and_eq_true] at h
  obtain ⟨⟨⟨⟨-, hfp⟩, hhash⟩, hhead⟩, -⟩ := h
  have hne : ∀ t : String, isSha256 t = true → t ≠ "" := by
    rintro t ht rfl
    revert ht
    decide
  have hunits : ∀ u ∈ ["cases", "documents", "scopes", "items", "replay fixtures"],
      lengthWithin 1 40 u = true := by decide
  have hmem : (itemRefs s.kind s.params).2 ∈
      ["cases", "documents", "scopes", "items", "replay fixtures"] := by
    unfold itemRefs
    split
    · simp
    · cases s.kind with
      | ragImport =>
        simp only
        split <;> simp
      | _ => simp
  have hunit := hunits _ hmem
  refine validates_iff.mpr ⟨hhead, ?_, ?_⟩
  · exact { progress := hunit
            failures := by simp [Submission.job]
            result := by simp [Submission.job]
            leaseOwner := rfl
            leaseToken := rfl
            transitions := by
              intro t ht
              obtain rfl := List.mem_singleton.mp ht
              decide
            artifact := by simp [Submission.job]
            pendingArtifactId := rfl
            pendingArtifactSuffix := rfl }
  · intro he
    rw [Job.emptyIdentity, Bool.or_eq_true, decide_eq_true_eq, decide_eq_true_eq] at he
    exact (he.elim (hne _ hfp) (hne _ hhash)).elim

theorem factoryReceipt_validates {current : Job} {status : JobStatus}
    {result : JobResult} {appVersion buildSha : String} (hv : current.validates = true)
    (hterm : status.terminal = true) (hresult : result.validates = true) :
    (current.factoryReceipt env status result appVersion buildSha).validates = true := by
  have hhead := (validates_iff.mp hv).1
  simp only [Job.headerValidates, Bool.and_eq_true] at hhead
  refine validates_iff.mpr ⟨?_, Job.BodyOk.factoryReceipt hresult _ _, fun _ => ?_⟩
  · have hid : lengthWithin 0 120 current.jobId = true := hhead.1.1.1.1.1.1
    simp only [Job.headerValidates, Job.factoryReceipt, Job.transition, hid]
    decide
  · simp only [Job.validReceipt, Job.factoryReceipt, Job.transition, hterm, Job.hasReceiptParams]
    decide

def Job.mentions (j : Job) : List String :=
  j.jobId :: (j.leaseToken.toList ++ (j.artifact.map JobArtifact.artifactId).toList ++
    j.pendingArtifactId.toList)

theorem mem_mentions :
    x ∈ j.mentions ↔ x = j.jobId ∨ j.leaseToken = some x ∨
      (∃ a, j.artifact = some a ∧ a.artifactId = x) ∨ j.pendingArtifactId = some x := by
  simp [Job.mentions]

theorem mentions_of_holdings (hhead : j'.header = j.header)
    (ht : j'.leaseToken = j.leaseToken ∨ j'.leaseToken = none)
    (ha : j'.artifact = j.artifact ∨ j'.artifact = none)
    (hp : j'.pendingArtifactId = j.pendingArtifactId ∨ j'.pendingArtifactId = none)
    (hx : x ∈ j'.mentions) : x ∈ j.mentions := by
  rw [mem_mentions] at hx ⊢
  rw [Job.jobId_of_header hhead] at hx
  rcases hx with hx | hx | hx | hx
  · exact .inl hx
  · rcases ht with ht | ht <;> rw [ht] at hx
    · exact .inr (.inl hx)
    · cases hx
  · rcases ha with ha | ha <;> rw [ha] at hx
    · exact .inr (.inr (.inl hx))
    · simp at hx
  · rcases hp with hp | hp <;> rw [hp] at hx
    · exact .inr (.inr (.inr hx))
    · cases hx

theorem mentions_of_same_holdings (hhead : j'.header = j.header)
    (h : j'.holdings = j.holdings) (hx : x ∈ j'.mentions) : x ∈ j.mentions := by
  simp only [Job.holdings, Prod.mk.injEq] at h
  exact mentions_of_holdings hhead (.inl h.1) (.inl h.2.1) (.inl h.2.2) hx

theorem HeldStep.mentions (h : HeldStep env job op next) (hx : x ∈ next.mentions) :
    x ∈ job.mentions ∨ x ∈ op.draws env := by
  have hhead := h.header
  cases h with
  | released => exact .inl (mentions_of_holdings hhead (.inr rfl) (.inl rfl) (.inl rfl) hx)
  | finished _ hended =>
    have hh := Job.finish_holdings hended
    simp only [Job.holdings, Prod.mk.injEq] at hh
    exact .inl (mentions_of_holdings hhead (.inr hh.1) (.inl hh.2.1) (.inr hh.2.2) hx)
  | reserved hsuffix =>
    unfold Job.reserveArtifact at hx
    split at hx
    · rw [mem_mentions] at hx ⊢
      rcases hx with hx | hx | hx | hx
      · exact .inl (.inl hx)
      · exact .inl (.inr (.inl hx))
      · exact .inl (.inr (.inr (.inl hx)))
      · obtain rfl := Option.some.inj hx
        exact .inr List.mem_cons_self
    · exact .inl hx
  | cleared =>
    unfold Job.clearPendingArtifact at hx hhead
    split at hx
    · next hp =>
        rw [if_pos hp] at hhead
        exact .inl (mentions_of_holdings hhead (.inl rfl) (.inl rfl) (.inr rfl) hx)
    · exact .inl hx
  | begun => exact .inl (mentions_of_same_holdings hhead (Job.beginItem_holdings _ _) hx)
  | completed => exact .inl (mentions_of_same_holdings hhead (Job.completeItem_holdings _ _ _) hx)
  | _ => exact .inl (mentions_of_same_holdings hhead rfl hx)

theorem RowStep.mentions (h : RowStep env d op id j j') (hx : x ∈ j'.mentions) :
    x ∈ j.mentions ∨ x ∈ op.draws env := by
  have hhead := h.header
  cases h with
  | held _ _ hstep => exact hstep.mentions hx
  | @claimed owner leaseMillis hop hcand =>
    subst hop
    obtain ⟨ht, ha, hp⟩ := Job.claim_holdings j env owner leaseMillis
    rw [mem_mentions, ht, ha, Job.jobId_of_header hhead] at hx
    rcases hx with hx | hx | hx | hx
    · exact .inl (mem_mentions.mpr (.inl hx))
    · exact .inr (by simp [Op.draws, (Option.some.inj hx).symm])
    · exact .inl (mem_mentions.mpr (.inr (.inr (.inl hx))))
    · rcases hp with hp | hp <;> rw [hp] at hx
      · exact .inl (mem_mentions.mpr (.inr (.inr (.inr hx))))
      · cases hx
  | cancelled _ _ hnext =>
    rcases Job.requestCancel_holdings hnext with hh | hh
    · exact .inl (mentions_of_same_holdings hhead hh hx)
    · simp only [Job.holdings, Prod.mk.injEq] at hh
      exact .inl (mentions_of_holdings hhead (.inl hh.1) (.inl hh.2.1) (.inr hh.2.2) hx)
  | stopped _ _ _ hnext =>
    rcases Job.stopForFence_holdings hnext with hh | hh
    · exact .inl (mentions_of_same_holdings hhead hh hx)
    · simp only [Job.holdings, Prod.mk.injEq] at hh
      exact .inl (mentions_of_holdings hhead (.inl hh.1) (.inl hh.2.1) (.inr hh.2.2) hx)
  | expired => exact .inl (mentions_of_holdings hhead (.inl rfl) (.inr rfl) (.inl rfl) hx)
  | @attached token artifact hop hholds hpending =>
    left
    rw [mem_mentions] at hx ⊢
    rcases hx with hx | hx | ⟨a, ha, rfl⟩ | hx
    · exact .inl hx
    · exact .inr (.inl hx)
    · obtain rfl := Option.some.inj ha
      exact .inr (.inr (.inr hpending))
    · cases hx
  | _ => exact .inl (mentions_of_same_holdings hhead rfl hx)

/-! ### The invariant -/

/-- **What holds of the document in every reachable state.** -/
structure Sound (doc : Document) : Prop where
  keyed : doc.registry.Keyed
  keys : doc.registry.KeysMatch
  valid : ∀ id j, doc.registry.jobs.get? id = some j → j.validates = true
  issued : ∀ id j, doc.registry.jobs.get? id = some j → ∀ x ∈ j.mentions, x ∈ doc.issued
  nonempty : "" ∉ doc.issued

namespace Sound

variable {doc : Document}

theorem clean (h : Sound doc) : doc.registry.Clean where
  valid := h.valid
  bound keyHash id hget := by
    obtain ⟨j, hj, -⟩ := (h.keys keyHash id).mp hget
    exact ⟨j, hj⟩

variable {id : String}

theorem id_issued (h : Sound doc) (hget : doc.registry.jobs.get? id = some j) :
    id ∈ doc.issued := by
  have := h.issued id j hget j.jobId (mem_mentions.mpr (.inl rfl))
  rwa [h.keyed id j hget] at this

theorem id_ne_empty (h : Sound doc) (hget : doc.registry.jobs.get? id = some j) : id ≠ "" :=
  fun hid => h.nonempty (hid ▸ h.id_issued hget)

theorem get?_of_fresh (h : Sound doc) (hid : id ∉ doc.issued) :
    doc.registry.jobs.get? id = none := by
  cases hget : doc.registry.jobs.get? id with
  | none => rfl
  | some j => exact absurd (h.id_issued hget) hid

theorem init : Sound emptyDocument where
  keyed := by
    intro id j h
    cases h
  keys := by
    intro keyHash id
    simp [emptyDocument, Registry.fresh]
  valid := by
    intro id j h
    cases h
  issued := by
    intro id j h
    cases h
  nonempty := by simp [emptyDocument]

end Sound

theorem draws_fresh (h : op.admissible env doc = true) (hx : x ∈ op.draws env) :
    x ∉ doc.issued ∧ x ≠ "" := by
  simp only [Op.admissible, Bool.and_eq_true, List.all_eq_true] at h
  simpa using h.1 x hx

theorem accepted_of_admissible {s : Submission}
    (h : (Op.create s).admissible env doc = true) : s.accepted = true := by
  simp only [Op.admissible, Bool.and_eq_true] at h
  exact h.2

theorem KeysMatch_insert (h : d.KeysMatch)
    (hid : d.jobs.get? j.jobId = none) (hhash : j.idempotencyKeyHash ≠ "")
    (hkey : d.idempotency.get? j.idempotencyKeyHash = none) (fence : String) :
    Registry.KeysMatch { d.write j.jobId j with
      idempotency := d.idempotency.set j.idempotencyKeyHash j.jobId, factoryFence := fence } := by
  intro keyHash id
  change (d.idempotency.set j.idempotencyKeyHash j.jobId).get? keyHash = some id ↔
    ∃ j', (d.write j.jobId j).jobs.get? id = some j' ∧ _
  rw [Dict.get?_set, write_get?]
  by_cases hk : keyHash = j.idempotencyKeyHash
  · subst hk
    rw [if_pos rfl, Option.some.injEq]
    constructor
    · rintro rfl
      exact ⟨j, by simp, rfl, hhash⟩
    · rintro ⟨j', hj', hh, -⟩
      by_cases heq : id = j.jobId
      · exact heq.symm
      · rw [if_neg heq] at hj'
        have := (h j.idempotencyKeyHash id).mpr ⟨j', hj', hh, hhash⟩
        rw [hkey] at this
        cases this
  · rw [if_neg hk, h keyHash id]
    by_cases heq : id = j.jobId
    · subst heq
      rw [if_pos rfl, hid]
      constructor
      · rintro ⟨j', hj', -⟩
        cases hj'
      · rintro ⟨j', hj', hh, -⟩
        obtain rfl := Option.some.inj hj'
        exact absurd hh.symm hk
    · rw [if_neg heq]

theorem get?_of_boundTo_none (hs : Sound doc) {keyHash : String}
    (h : doc.registry.boundTo keyHash = none) : doc.registry.idempotency.get? keyHash = none := by
  cases hget : doc.registry.idempotency.get? keyHash with
  | none => rfl
  | some id =>
    obtain ⟨j, hj, -⟩ := (hs.keys keyHash id).mp hget
    have hne := hs.id_ne_empty hj
    simp [Registry.boundTo, hget, hne] at h

theorem outcome_keys (hs : Sound doc) (hadm : op.admissible env doc = true)
    (ho : Outcome env doc.registry op val d') : d'.Keyed ∧ d'.KeysMatch := by
  have hwrite : ∀ {id : String} {j next : Job}, doc.registry.jobs.get? id = some j →
      next.header = j.header → (doc.registry.write id next).Keyed ∧
        (doc.registry.write id next).KeysMatch := by
    intro id j next hget hhead
    exact ⟨hs.keyed.write ((Job.jobId_of_header hhead).trans (hs.keyed id j hget)),
      hs.keys.write hget (Job.hash_of_header hhead)⟩
  cases ho with
  | bound | idle | cancelMissed | purgeMissed | rowMissed | fenceReleased =>
    exact ⟨hs.keyed, hs.keys⟩
  | @created s d1 pruned hbound hfence hprune hroom =>
    have hp := pruneTerminal_spec hs.keyed hs.keys hprune
    have hrows : ∀ r ∈ expiredAtCreate d1, d1.jobs.get? r.jobId = some r :=
      fun r hr => (mem_expiredAtCreate hp.keyed hr).1
    have hk2 := hp.keyed.expireArtifacts hrows
    have hm2 := hp.keys.expireArtifacts hrows
    have hacc := accepted_of_admissible hadm
    have hfresh := draws_fresh hadm (x := s.jobId) (by simp [Op.draws])
    have hnone : doc.registry.jobs.get? s.job.jobId = none := hs.get?_of_fresh hfresh.1
    have hnone1 : d1.jobs.get? s.job.jobId = none := by
      cases hg : d1.jobs.get? s.job.jobId with
      | none => rfl
      | some j =>
        have := hp.rows _ _ hg
        rw [hnone] at this
        cases this
    have hnone2 : (expireArtifacts d1 (expiredAtCreate d1)).jobs.get? s.job.jobId = none := by
      rw [expireArtifacts_get? hrows, hnone1]
      rfl
    have hv := validates_iff.mp (submission_validates hacc)
    have hident : s.job.emptyIdentity = false :=
      identity_of_active (submission_validates hacc) rfl
    have hhash := (hash_ne_empty hident).2
    have hkey2 : (expireArtifacts d1 (expiredAtCreate d1)).idempotency.get?
        s.job.idempotencyKeyHash = none := by
      cases hg : (expireArtifacts d1 (expiredAtCreate d1)).idempotency.get?
          s.job.idempotencyKeyHash with
      | none => rfl
      | some id =>
        -- the row of the key was there before the pruning, where the hash was unbound
        rw [expireArtifacts_idempotency] at hg
        obtain ⟨j, hj, hh, hne⟩ := (hp.keys _ _).mp hg
        have := (hs.keys _ _).mpr ⟨j, hp.rows _ _ hj, hh, hne⟩
        have hunbound : doc.registry.idempotency.get? s.job.idempotencyKeyHash = none :=
          get?_of_boundTo_none hs hbound
        rw [hunbound] at this
        cases this
    exact ⟨hk2.write rfl, KeysMatch_insert hm2 hnone2 hhash hkey2 _⟩
  | claimed hfirst =>
    rw [claim_jobId]
    exact hwrite (mem_claimCandidates hs.keyed (firstMin_mem hfirst)) (Job.claim_header _ _ _ _)
  | held hlease hholds hstep => exact hwrite hholds.get hstep.header
  | cancelled hj hheld hterm hnext => exact hwrite hj (Job.requestCancel_header hnext)
  | retired hfold =>
    have hr := (retireActor_rows hs.keyed hs.keys hfold).1
    exact ⟨hr.keyed, hr.keys⟩
  | purged hj hpurge => exact ⟨hs.keyed.drop _ _, hs.keys.drop hj⟩
  | inboxSynced hj => exact hwrite hj (Job.setInboxSynced_header _ _)
  | audited hj => exact hwrite hj (Job.markTransitionAudited_header _ _)
  | expired hj hart => exact hwrite hj (Job.expireArtifact_header _)
  | unaudited =>
    constructor
    · intro id j hget
      simp only [Dict.get?_mapValues, map_eq_some_iff] at hget
      obtain ⟨j0, hj0, rfl⟩ := hget
      have := hs.keyed id j0 hj0
      split <;> exact this
    · intro keyHash id
      simp only [Dict.get?_mapValues]
      rw [hs.keys keyHash id]
      cases doc.registry.jobs.get? id with
      | none => simp
      | some j =>
        simp only [Option.some.injEq, exists_eq_left', map_some]
        split <;> rfl
  | @attached jobId token artifact job hholds hpending =>
    obtain ⟨hk1, hm1⟩ := hwrite hholds.get (Job.attachArtifact_header job artifact)
    have hrows : ∀ r ∈ expiredAtAttach
        (doc.registry.write jobId (job.attachArtifact artifact)) jobId, _ :=
      fun r hr => (mem_expiredAtAttach hk1 hr).1
    exact ⟨hk1.expireArtifacts hrows, hm1.expireArtifacts hrows⟩
  | fenced hholds hfence hfold =>
    have hr := (beginFactoryFence_rows hs.keyed hs.keys hfold).1
    exact ⟨hr.keyed, hr.keys⟩
  | @compacted jobId token status result appVersion buildSha job hholds hfence hterm =>
    constructor
    · intro id j hget
      rw [Dict.get?_set] at hget
      split at hget
      · next hid =>
          obtain rfl := Option.some.inj hget
          exact (hs.keyed jobId job hholds.get).trans hid.symm
      · cases hget
    · intro keyHash id
      simp only [Dict.get?_empty, Dict.get?_set, reduceCtorEq, false_iff]
      rintro ⟨j, hj, hh, hne⟩
      split at hj
      · obtain rfl := Option.some.inj hj
        exact hne hh.symm
      · cases hj

variable {doc' : Document}

/-- **The invariant is preserved** by every admissible attempt. -/
theorem Sound.change (hs : Sound doc) (hadm : op.admissible env doc = true)
    (hok : op.change env doc = .ok (val, doc')) : Outcome env doc.registry op val doc'.registry ∧
      doc'.issued = doc.issued ++ op.draws env ∧ Sound doc' := by
  unfold Op.change at hok
  split at hok
  · next val0 d' hrun =>
      obtain ⟨rfl, rfl⟩ := Prod.mk.inj (Except.ok.inj hok)
      have ho := outcome_of_run hs.clean hs.keyed hrun
      obtain ⟨hk, hm⟩ := outcome_keys hs hadm ho
      refine ⟨ho, rfl, hk, hm, ?_, ?_, ?_⟩
      · intro id j' hget
        cases outcome_rows hs.keyed hs.keys ho hget with
        | stepped hj hstep => exact hstep.validates hadm (hs.valid id _ hj)
        | submitted hop hid =>
          subst hop
          exact submission_validates (accepted_of_admissible hadm)
        | receipt hop hholds hterm =>
          subst hop
          simp only [Op.admissible, Bool.and_eq_true] at hadm
          exact factoryReceipt_validates (hs.valid id _ hholds.get) hterm hadm.2
      · intro id j' hget x hx
        rw [List.mem_append]
        cases outcome_rows hs.keyed hs.keys ho hget with
        | stepped hj hstep => exact (hstep.mentions hx).imp (hs.issued id _ hj x) (fun h => h)
        | submitted hop hid =>
          subst hop
          rw [mem_mentions] at hx
          rcases hx with hx | hx | ⟨a, ha, -⟩ | hx
          · exact .inr (List.mem_singleton.mpr hx)
          · cases hx
          · cases ha
          · cases hx
        | receipt hop hholds hterm =>
          rw [mem_mentions] at hx
          rcases hx with hx | hx | ⟨a, ha, -⟩ | hx
          · exact .inl (hs.issued id _ hholds.get x (mem_mentions.mpr (.inl hx)))
          · cases hx
          · cases ha
          · cases hx
      · rw [List.mem_append, not_or]
        exact ⟨hs.nonempty, fun hx => (draws_fresh hadm hx).2 rfl⟩
  · cases hok

theorem registry_step (h : registryMachine.step doc (op, env) = some doc') :
    doc' = doc ∨ ∃ val, op.admissible env doc = true ∧ op.change env doc = .ok (val, doc') := by
  simp only [CasCell.atomic, ite_none_right_eq_some] at h
  obtain ⟨hadm, h⟩ := h
  split at h
  · exact .inl (Option.some.inj h).symm
  · next val next hch => exact .inr ⟨val, hadm, Option.some.inj h ▸ hch⟩

variable {P : Document → Op × Env → Prop} {D : Document → Prop}

/-- **The rule for documents**: what the empty document has and every outcome preserves
holds of every document reached under `P`. -/
theorem registry_invariant (hinit : D emptyDocument)
    (hstep : ∀ doc doc' op env val, Sound doc → D doc → P doc (op, env) →
      op.admissible env doc = true → Outcome env doc.registry op val doc'.registry →
      doc'.issued = doc.issued ++ op.draws env → D doc') (h : registryMachine.Reaches P doc) :
    D doc := by
  have hboth : Sound doc ∧ D doc := by
    refine Machine.invariant (I := fun doc => Sound doc ∧ D doc) ?_ ?_ h
    · rintro doc rfl
      exact ⟨Sound.init, hinit⟩
    · rintro doc ⟨op, env⟩ doc' ⟨hs, hD⟩ hP hst
      rcases registry_step hst with rfl | ⟨val, hadm, hch⟩
      · exact ⟨hs, hD⟩
      · obtain ⟨ho, hissued, hs'⟩ := hs.change hadm hch
        exact ⟨hs', hstep doc doc' op env val hs hD hP hadm ho hissued⟩
  exact hboth.2

/-- Every document the store reaches one operation at a time is sound, whatever
condition the operations meet. -/
theorem sound_of_reaches (h : registryMachine.Reaches P doc) : Sound doc := by
  refine Machine.invariant (I := Sound) ?_ ?_ h
  · rintro doc rfl
    exact Sound.init
  · rintro doc ⟨op, env⟩ doc' hs - hst
    rcases registry_step hst with rfl | ⟨val, hadm, hch⟩
    · exact hs
    · exact (hs.change hadm hch).2.2

theorem sound_of_cell {P : CasCell.State registryInterface → CasCell.Event registryInterface → Prop}
    {s : CasCell.State registryInterface} (h : registryCell.Reaches P s) : Sound s.doc := by
  refine CasCell.doc_invariant (D := Sound) Sound.init ?_ h
  intro s e op env val next hs _ _ hadm hch
  exact (hs.change hadm hch).2.2

abbrev CellState := CasCell.State registryInterface

abbrev CellEvent := CasCell.Event registryInterface

variable {e : CellEvent}

/-- What a commit at a reached state does: it is one of the outcomes of its operation on
the document as it stands. -/
theorem commit_outcome (hs : Sound s.doc) (hsnap : CasCell.Snapshot s) {next : Document}
    (hc : CasCell.Commits s e op env val next) :
    op.admissible env s.doc = true ∧ Outcome env s.doc.registry op val next.registry ∧
      next.issued = s.doc.issued ++ op.draws env ∧ Sound next := by
  obtain ⟨hadm, hch⟩ := hc.change_eq hsnap
  exact ⟨hadm, hs.change hadm hch⟩

variable {t : CellState}

theorem cell_step (hs : Sound s.doc) (hsnap : CasCell.Snapshot s)
    (h : registryCell.step s e = some t) :
    t.doc = s.doc ∨ ∃ op env val, CasCell.Commits s e op env val t.doc ∧
      op.admissible env s.doc = true ∧ Outcome env s.doc.registry op val t.doc.registry ∧
      t.doc.issued = s.doc.issued ++ op.draws env := by
  rcases CasCell.step_doc h with ⟨hdoc, -⟩ | ⟨op, env, val, hc, -⟩
  · exact .inl hdoc
  · obtain ⟨hadm, ho, hissued, -⟩ := commit_outcome hs hsnap hc
    exact .inr ⟨op, env, val, hc, hadm, ho, hissued⟩

/-- **The rule for a stretch of a run**: what every outcome preserves, from a reached
state on, holds of the document in every state reached from there. -/
theorem document_run
    (hstep : ∀ doc doc' op env val, Sound doc → D doc → op.admissible env doc = true →
      Outcome env doc.registry op val doc'.registry → doc'.issued = doc.issued ++ op.draws env →
      D doc') {es : List CellEvent} (hs : registryCell.Reaches Machine.anyStep s) (hD : D s.doc)
    (hrun : registryCell.run s es = some t) : D t.doc := by
  have hboth : registryCell.Reaches Machine.anyStep t ∧ D t.doc := by
    refine Machine.run_preserves (I := fun s => registryCell.Reaches Machine.anyStep s ∧ D s.doc)
      ?_ ⟨hs, hD⟩ (Machine.throughout_anyStep _ _ es) hrun
    rintro s e t ⟨hreach, hD⟩ - hst
    refine ⟨hreach.step trivial hst, ?_⟩
    rcases cell_step (sound_of_cell hreach) (CasCell.snapshot_of_reaches hreach) hst with
      hdoc | ⟨op, env, val, -, hadm, ho, hissued⟩
    · rw [hdoc]
      exact hD
    · exact hstep s.doc t.doc op env val (sound_of_cell hreach) hD hadm ho hissued
  exact hboth.2

end AgenticKibana.Jobs
