import AgenticKibana.Jobs.Fence

/-!
# Recovery of the factory fence

A fence that outlives its owner is lifted by a new factory reset: `create` admits one when the
fenced row is a failed reset or the receipt of one.  A free place and room for the parameters are
always there; the row is lost, or ends in another way, through four operations that do not look at
the fence.
-/

namespace AgenticKibana.Jobs

open AgenticKibana.Library Option

variable {d d' d1 : Registry} {env : Env} {j j' : Job} {op : Op} {f : Job → Nat}
  {pruned : List JobArtifact} {doc : Document} {val : Val} {id : String}

theorem RowStep.activeParamSize_le (h : RowStep env d op id j j') :
    activeParamSize j' ≤ activeParamSize j := by
  unfold activeParamSize
  cases hterm' : j'.status.terminal with
  | true => simp
  | false =>
    have hterm : j.status.terminal = false := by
      cases hterm : j.status.terminal with
      | false => rfl
      | true =>
        rw [(h.sameOutcome hterm).status, hterm] at hterm'
        cases hterm'
    rcases h.params with hparams | ⟨-, hended⟩
    · rw [hterm, hparams]
    · rw [hended] at hterm'
      cases hterm'

/-! ### The bounds of the registry -/

/-- The bounds `create` keeps. -/
structure Bounded (d : Registry) : Prop where
  size : d.jobs.size ≤ maxJobs
  params : d.jobs.total activeParamSize ≤ maxRegistryParamBytes

theorem total_le_of_stepped
    (h : ∀ id j', d'.jobs.get? id = some j' → ∃ j, d.jobs.get? id = some j ∧ f j' ≤ f j) :
    d'.jobs.total f ≤ d.jobs.total f :=
  Dict.total_le_total fun id j' hj' _ => h id j' hj'

theorem size_drop (hget : d.jobs.get? id = some j) :
    (d.drop id j).jobs.size + 1 = d.jobs.size := by
  rw [Dict.size_eq_total, Dict.size_eq_total]
  exact Dict.total_erase_of_some (fun _ => 1) hget

theorem pruneTerminal_room {fuel : Nat}
    (hk : d.Keyed) (hfuel : d.jobs.size ≤ fuel) (h : pruneTerminal fuel d = .ok (d', pruned)) :
    d'.jobs.size < maxJobs := by
  induction fuel generalizing d pruned with
  | zero =>
    obtain ⟨rfl, -⟩ := Prod.mk.inj (Except.ok.inj h)
    have hmax : 0 < maxJobs := by decide
    omega
  | succ fuel ih =>
    simp only [pruneTerminal] at h
    split at h
    · next hroom =>
        obtain ⟨rfl, -⟩ := Prod.mk.inj (Except.ok.inj h)
        exact hroom
    · split at h
      · cases h
      · next victim hmin =>
          obtain ⟨⟨d1, rest⟩, hrest, hpure⟩ := bind_eq_ok.mp h
          obtain ⟨rfl, -⟩ := Prod.mk.inj (pure_eq_ok.mp hpure)
          have hget := hk.values.mp (List.mem_filter.mp (firstMin_mem hmin)).1
          have hdrop := size_drop hget
          exact ih (hk.drop _ _) (by omega) hrest

theorem pruneTerminal_succeeds (hk : d.Keyed) (hsize : d.jobs.size ≤ maxJobs)
    (hget : d.jobs.get? id = some j) (hterm : j.status.terminal = true) :
    ∃ d' pruned, pruneTerminal d.jobs.size d = .ok (d', pruned) := by
  have hfit : ∀ fuel (d : Registry), d.jobs.size < maxJobs →
    pruneTerminal fuel d = .ok (d, []) := by
    intro fuel d hroom
    cases fuel with
    | zero => rfl
    | succ fuel => rw [pruneTerminal, if_pos hroom]
  by_cases hroom : d.jobs.size < maxJobs
  · exact ⟨d, [], hfit _ _ hroom⟩
  · cases hmin : firstMin endKey (d.jobs.values.filter fun j => j.status.terminal) with
    | none =>
      have hnil := firstMin_eq_none hmin
      have hmem : j ∈ d.jobs.values.filter fun j => j.status.terminal :=
        List.mem_filter.mpr ⟨Dict.mem_values_iff.mpr ⟨id, hget⟩, hterm⟩
      rw [hnil] at hmem
      cases hmem
    | some victim =>
      have hvictim := hk.values.mp (List.mem_filter.mp (firstMin_mem hmin)).1
      have hdrop := size_drop hvictim
      obtain ⟨n, hn⟩ : ∃ n, d.jobs.size = n + 1 := ⟨_, hdrop.symm⟩
      refine ⟨d.drop victim.jobId victim, victim.artifact.toList ++ [], ?_⟩
      rw [hn, pruneTerminal, if_neg hroom, hmin]
      simp only [hfit n (d.drop victim.jobId victim) (by omega)]
      rfl

theorem total_createPasses (hp : Pruned d d1 pruned) (hf : ∀ j, f j.expireArtifact = f j) :
    (expireArtifacts d1 (expiredAtCreate d1)).jobs.total f ≤ d1.jobs.total f ∧
      d1.jobs.total f ≤ d.jobs.total f := by
  constructor
  · apply total_le_of_stepped
    intro id j' hj'
    rw [expireArtifacts_get? fun r hr => (mem_expiredAtCreate hp.keyed hr).1,
      map_eq_some_iff] at hj'
    obtain ⟨j, hj, rfl⟩ := hj'
    refine ⟨j, hj, ?_⟩
    split
    · rw [hf]
    · exact Nat.le_refl _
  · apply total_le_of_stepped
    intro id j' hj'
    exact ⟨j', hp.rows id j' hj', Nat.le_refl _⟩

variable {job : Job}

theorem total_createdRegistry (hk : d1.Keyed) {recovery : Bool}
    (hnone : d1.jobs.get? job.jobId = none) (f : Job → Nat) :
    (createdRegistry d1 job recovery).jobs.total f =
      (expireArtifacts d1 (expiredAtCreate d1)).jobs.total f + f job := by
  apply Dict.total_set_of_none
  rw [expireArtifacts_get? fun r hr => (mem_expiredAtCreate hk hr).1, hnone]
  rfl

theorem activeParamSize_back {doc : Document} (hs : Sound doc) {op : Op} {env : Env} {val : Val}
    {d' : Registry} (ho : Outcome env doc.registry op val d') (hcreate : ¬ ∃ s, op = .create s)
    {id : String} {j' : Job} (hj' : d'.jobs.get? id = some j') :
    ∃ j, doc.registry.jobs.get? id = some j ∧ activeParamSize j' ≤ activeParamSize j := by
  cases outcome_rows hs.keyed hs.keys ho hj' with
  | stepped hj hstep => exact ⟨_, hj, hstep.activeParamSize_le⟩
  | submitted hop => exact absurd ⟨_, hop⟩ hcreate
  | @receipt token status result appVersion buildSha j hop hholds hterm =>
    refine ⟨j, hholds.get, ?_⟩
    have hzero : activeParamSize (j.factoryReceipt env status result appVersion buildSha) = 0 :=
      if_pos hterm
    rw [hzero]
    exact Nat.zero_le _

theorem bounded_step (hs : Sound doc) (hb : Bounded doc.registry)
    (hadm : op.admissible env doc = true)
    (ho : Outcome env doc.registry op val d') : Bounded d' := by
  by_cases hcreate : ∃ s, op = .create s
  · obtain ⟨s, rfl⟩ := hcreate
    cases ho with
    | bound | rowMissed => exact hb
    | held hlease => cases hlease
    | @created _ d1 _ hbound hfence hprune hroom =>
      have hp := pruneTerminal_spec hs.keyed hs.keys hprune
      have hfresh : s.job.jobId ∉ doc.issued :=
        (draws_fresh hadm (x := s.jobId) (by simp [Op.draws])).1
      have hnone : d1.jobs.get? s.job.jobId = none := by
        cases hg : d1.jobs.get? s.job.jobId with
        | none => rfl
        | some j => exact absurd (hs.id_issued (hp.rows _ _ hg)) hfresh
      constructor
      · have hroom' := pruneTerminal_room hs.keyed (Nat.le_refl _) hprune
        have hle := (total_createPasses hp (f := fun _ => 1) fun _ => rfl).1
        rw [Dict.size_eq_total, total_createdRegistry hp.keyed hnone]
        rw [Dict.size_eq_total] at hroom'
        omega
      · rw [total_createdRegistry hp.keyed hnone]
        exact hroom
  · have hback := fun id j' => @activeParamSize_back _ hs _ _ _ _ ho hcreate id j'
    constructor
    · rw [Dict.size_eq_total]
      refine Nat.le_trans ?_ (Dict.size_eq_total doc.registry.jobs ▸ hb.size)
      apply total_le_of_stepped
      intro id j' hj'
      obtain ⟨j, hj, -⟩ := hback id j' hj'
      exact ⟨j, hj, Nat.le_refl _⟩
    · exact Nat.le_trans (total_le_of_stepped hback) hb.params

/-- `create` admits every freshly authorised factory reset under a new key, as the new
owner of the fence. -/
def AdmitsReset (doc : Document) : Prop :=
  ∀ (s : Submission) (env : Env), (Op.create s).admissible env doc = true →
    s.job.freshFactoryReset env.nowMs = true →
    doc.registry.idempotency.get? s.idempotencyKeyHash = none →
    ∃ pruned doc', (Op.create s).change env doc = .ok (.created s.job true pruned, doc') ∧
      doc'.registry.factoryFence = s.jobId

def ResetFits (d : Registry) : Prop :=
  d.jobs.total activeParamSize + jsonSize ResetScope.factory.params ≤ maxRegistryParamBytes

theorem params_of_freshFactoryReset {s : Submission} (hacc : s.accepted = true) {nowMs : Nat}
    (h : s.job.freshFactoryReset nowMs = true) : s.params = ResetScope.factory.params := by
  simp only [Submission.accepted, Bool.and_eq_true] at hacc
  simp only [Job.freshFactoryReset, Bool.and_eq_true, decide_eq_true_eq] at h
  have hkind : s.kind = .tieredReset := h.1.1.1
  have hscope : s.params.get? "scope" = some (.str "factory") := h.1.1.2
  have hchecked := hacc.2
  simp only [Submission.paramsChecked, hkind, Bool.or_eq_true, decide_eq_true_eq] at hchecked
  rcases hchecked with (hcases | hsources) | hfactory
  · rw [hcases] at hscope
    exact absurd hscope (by decide)
  · rw [hsources] at hscope
    exact absurd hscope (by decide)
  · exact hfactory

theorem create_of_recovery (h : d.Clean) (hbound : d.boundTo job.idempotencyKeyHash = none)
    (hrec : d.recovery job env.nowMs = true)
    (hprune : pruneTerminal d.jobs.size d = .ok (d1, pruned))
    (hroom : (expireArtifacts d1 (expiredAtCreate d1)).jobs.total activeParamSize +
      jsonSize job.params ≤ maxRegistryParamBytes) :
    create d env job = .ok ((job, true, pruned ++ (expiredAtCreate d1).filterMap Job.artifact),
      createdRegistry d1 job true) := by
  rw [create, mutate_of_clean h, hbound]
  change (if d.factoryFence ≠ "" ∧ d.recovery job env.nowMs = false then _ else _) = _
  rw [if_neg (by simp [hrec]), hprune]
  change (if maxRegistryParamBytes < _ then _ else _) = _
  rw [if_neg (Nat.not_lt.mpr hroom)]
  change Except.ok (_, createdRegistry d1 job (d.recovery job env.nowMs)) = _
  rw [hrec]

theorem admitsReset_of_recoverable (hs : Sound doc) (hb : Bounded doc.registry)
    {fenced : Job} (hne : doc.registry.factoryFence ≠ "")
    (hget : doc.registry.jobs.get? doc.registry.factoryFence = some fenced)
    (hrec : fenced.recoverable = true) (hfits : ResetFits doc.registry) : AdmitsReset doc := by
  intro s env hadm hfresh hkey
  have hbound : doc.registry.boundTo s.job.idempotencyKeyHash = none := by
    change (doc.registry.idempotency.get? s.idempotencyKeyHash).filter _ = none
    rw [hkey]
    rfl
  have hrecovery : doc.registry.recovery s.job env.nowMs = true := by
    simp [Registry.recovery, hne, hget, hrec, hfresh]
  have hterm : fenced.status.terminal = true := by
    simp only [Job.recoverable, Bool.and_eq_true, Bool.or_eq_true, decide_eq_true_eq] at hrec
    rcases hrec.2 with hfailed | hreceipt
    · rw [hfailed]
      rfl
    · exact hreceipt.2
  obtain ⟨d1, pruned, hprune⟩ := pruneTerminal_succeeds hs.keyed hb.size hget hterm
  have hp := pruneTerminal_spec hs.keyed hs.keys hprune
  have hparams : s.job.params = ResetScope.factory.params :=
    params_of_freshFactoryReset (accepted_of_admissible hadm) hfresh
  have hroom : (expireArtifacts d1 (expiredAtCreate d1)).jobs.total activeParamSize +
      jsonSize s.job.params ≤ maxRegistryParamBytes := by
    obtain ⟨hle1, hle2⟩ := total_createPasses hp (f := activeParamSize) fun _ => rfl
    rw [hparams]
    unfold ResetFits at hfits
    omega
  have hcreate := create_of_recovery hs.clean hbound hrecovery hprune hroom
  refine ⟨pruned ++ (expiredAtCreate d1).filterMap Job.artifact,
    ⟨createdRegistry d1 s.job true, doc.issued ++ (Op.create s).draws env⟩, ?_, rfl⟩
  have hrun : (Op.create s).run env doc.registry = .ok
      (.created s.job true (pruned ++ (expiredAtCreate d1).filterMap Job.artifact),
        createdRegistry d1 s.job true) := by
    change tag _ (create doc.registry env s.job) = _
    rw [hcreate]
    rfl
  unfold Op.change
  rw [hrun]

/-- The reasons for which a row is gone after an operation. -/
inductive Dropped (env : Env) (op : Op) (id : String) (j : Job) : Prop
  | pruned {s : Submission} (hop : op = .create s)
  | retired {actor generation : String} (hop : op = .retireActor actor generation)
      (hof : j.ofAccount env actor generation = true) (hnot : j.status ≠ .running)
  | purged (hop : op = .purgeRetiredTerminal id) (hpurge : j.purgeable = true)
  | compacted {jobId token : String} {status : JobStatus} {result : JobResult}
      {appVersion buildSha : String}
      (hop : op = .factoryCompact jobId token status result appVersion buildSha)

theorem dropped_of_outcome (hk : d.Keyed) (hm : d.KeysMatch) (ho : Outcome env d op val d')
    (hget : d.jobs.get? id = some j) (hnone : d'.jobs.get? id = none) : Dropped env op id j := by
  have hkept : d'.jobs.get? id = d.jobs.get? id → Dropped env op id j := by
    intro h
    rw [hnone, hget] at h
    cases h
  have hwrite : ∀ {id' : String} {next : Job}, d' = d.write id' next → Dropped env op id j := by
    rintro id' next rfl
    rw [write_get?] at hnone
    split at hnone
    · cases hnone
    · rw [hnone] at hget
      cases hget
  cases ho with
  | created => exact .pruned rfl
  | claimed | held | cancelled | inboxSynced | audited | expired => exact hwrite rfl
  | retired hfold =>
    obtain ⟨-, hrows⟩ := retireActor_rows hk hm hfold
    rw [hrows id, hget, bind_some] at hnone
    unfold retiredRow at hnone
    split at hnone
    · cases hnone
    · next hof =>
        split at hnone
        · cases hnone
        · next hnot => exact .retired rfl (by simpa using hof) hnot
  | @purged jobId job hgetp hpurge =>
    rw [drop_get?] at hnone
    split at hnone
    · next hid =>
        subst hid
        rw [hget, Option.some.injEq] at hgetp
        exact .purged rfl (hgetp ▸ hpurge)
    · rw [hnone] at hget
      cases hget
  | unaudited =>
    rw [Dict.get?_mapValues, hget] at hnone
    cases hnone
  | @attached jobId token artifact job hholds hpending =>
    have hid : (job.attachArtifact artifact).jobId = jobId := hk jobId job hholds.get
    have hown : (d.write jobId (job.attachArtifact artifact)).jobs.get? jobId =
        some (job.attachArtifact artifact) := by rw [write_get?, if_pos rfl]
    rw [expireArtifacts_get? fun r hr => (mem_expiredAtAttach (hk.write hid) hr).1] at hnone
    rw [map_eq_none_iff, write_get?] at hnone
    split at hnone
    · cases hnone
    · rw [hnone] at hget
      cases hget
  | fenced hholds hfence hfold =>
    obtain ⟨-, -, hsome⟩ := beginFactoryFence_rows hk hm hfold
    obtain ⟨j', -, hj'⟩ := hsome id j hget
    exact absurd (hj'.symm.trans hnone) (by simp)
  | compacted => exact .compacted rfl
  | _ => exact hkept rfl

/-! ### The owner of the fence -/

/-- What may happen to the row the fence names: it is not cancelled while it is queued,
not removed, and if it is finished then as the failure of a factory reset. -/
def fenceSafe (doc : Document) (op : Op) (env : Env) : Bool :=
  doc.registry.factoryFence = "" ||
    (doc.registry.jobs.get? doc.registry.factoryFence).all fun owner =>
      match op with
      | .finish jobId token status _ _ =>
        jobId ≠ doc.registry.factoryFence || owner.leaseToken ≠ some token ||
          owner.status ≠ .running || !status.terminal ||
          (status = .failed && owner.kind = .tieredReset &&
            owner.params = ResetScope.factory.params)
      | .requestCancel jobId actor generation =>
        jobId ≠ doc.registry.factoryFence || !owner.heldBy env actor generation ||
          owner.status ≠ .queued
      | .retireActor actor generation =>
        !owner.ofAccount env actor generation || owner.status = .running
      | .purgeRetiredTerminal jobId => jobId ≠ doc.registry.factoryFence || !owner.purgeable
      | _ => true

def Served (d : Registry) (owner : Job) : Prop :=
  owner.status.terminal = false ∨ (owner.recoverable = true ∧ ResetFits d)

theorem RowStep.recoverable (h : RowStep env d op id j j') (hterm : j.status.terminal = true)
    (hrec : j.recoverable = true) : j'.recoverable = true := by
  have hparams : j'.params = j.params := by
    rcases h.params with hparams | ⟨hactive, -⟩
    · exact hparams
    · rw [hterm] at hactive
      cases hactive
  have hstatus := (h.sameOutcome hterm).status
  have hactor : j'.actor = j.actor := congrArg JobHeader.actor h.header
  simp only [Job.recoverable, Job.factoryReceiptRow, Job.hasReceiptParams, hparams, hstatus,
    Job.kind_of_header h.header, Job.fingerprint_of_header h.header, Job.hash_of_header h.header,
    hactor] at hrec ⊢
  exact hrec

theorem terminal_of_recoverable (h : j.recoverable = true) :
    j.status.terminal = true := by
  simp only [Job.recoverable, Bool.and_eq_true, Bool.or_eq_true, decide_eq_true_eq] at h
  rcases h.2 with hfailed | hreceipt
  · rw [hfailed]
    rfl
  · exact hreceipt.2

theorem recoverable_of_failed {result : Option JobResult}
    {jobError : Option String} (hkind : j.kind = .tieredReset)
    (hparams : j.params = ResetScope.factory.params)
    (h : j.finish env .failed result jobError = .ok j') : j'.recoverable = true := by
  obtain ⟨hstatus, hcompact⟩ := Job.finish_status h
  rw [hkind, hparams] at hcompact
  have hreceipt : j'.params = factoryReceiptParams :=
    (Except.ok.inj hcompact).symm.trans (by decide)
  simp only [Job.recoverable, Job.factoryReceiptRow, Job.hasReceiptParams, hreceipt, hstatus,
    Job.kind_of_header (Job.finish_header h), hkind]
  rfl

theorem RowStep.ends (h : RowStep env d op id j j') (hactive : j.status.terminal = false)
    (hended : j'.status.terminal = true) :
    (∃ token status result jobError, op = .finish id token status result jobError ∧
      Holds d id token j ∧ status.terminal = true ∧
      j.finish env status result jobError = .ok j') ∨
    (∃ actor generation, op = .requestCancel id actor generation ∧
      j.heldBy env actor generation = true ∧ j.status = .queued) ∨
    ∃ jobId token, op = .beginFactoryFence jobId token ∧ id ≠ jobId := by
  have hsame : j'.status = j.status → False := by
    intro hstatus
    rw [hstatus, hactive] at hended
    cases hended
  cases h with
  | held hlease hholds hstep =>
    cases hstep with
    | released => cases hended
    | begun =>
      refine absurd ?_ hsame
      unfold Job.beginItem
      split <;> rfl
    | completed =>
      refine absurd ?_ hsame
      unfold Job.completeItem
      split
      · rfl
      · rfl
      · split <;> rfl
    | finished hterm hfinish =>
      simp only [Op.lease, Option.some.injEq, Prod.mk.injEq] at hlease
      obtain ⟨rfl, rfl⟩ := hlease
      exact .inl ⟨_, _, _, _, rfl, hholds, hterm, hfinish⟩
    | reserved =>
      refine absurd ?_ hsame
      unfold Job.reserveArtifact
      split <;> rfl
    | cleared =>
      refine absurd ?_ hsame
      unfold Job.clearPendingArtifact
      split <;> rfl
    | _ => exact absurd rfl hsame
  | claimed =>
    rw [(Job.claim_params _ _ _ _).2] at hended
    cases hended
  | cancelled hop _ hnext hheld =>
    rcases Job.requestCancel_eq hnext with ⟨hq, -⟩ | ⟨-, rfl⟩
    · exact .inr (.inl ⟨_, _, hop, hheld, hq⟩)
    · refine absurd ?_ hsame
      unfold Job.cancelAsked
      split <;> rfl
  | stopped hop hne _ _ => exact .inr (.inr ⟨_, _, hop, hne⟩)
  | _ => exact absurd rfl hsame

theorem total_add_le
    (hback : ∀ id r', d'.jobs.get? id = some r' → ∃ r, d.jobs.get? id = some r ∧ f r' ≤ f r)
    (hget : d.jobs.get? id = some j) (hget' : d'.jobs.get? id = some j') :
    d'.jobs.total f + f j ≤ d.jobs.total f + f j' := by
  have hrest : (d'.jobs.erase id).total f ≤ (d.jobs.erase id).total f := by
    apply Dict.total_le_total
    intro id' r' hr' _
    rw [Dict.get?_erase] at hr'
    split at hr'
    · cases hr'
    · next hne =>
        obtain ⟨r, hr, hle⟩ := hback id' r' hr'
        refine ⟨r, ?_, hle⟩
        rw [Dict.get?_erase, if_neg hne, hr]
  have h1 := Dict.total_erase_of_some f hget
  have h2 := Dict.total_erase_of_some f hget'
  omega

theorem served_step (hs : Sound doc) (hb : Bounded doc.registry)
    (hsafe : fenceSafe doc op env = true)
    (ho : Outcome env doc.registry op val d') (hne : doc.registry.factoryFence ≠ "")
    (hget : doc.registry.jobs.get? doc.registry.factoryFence = some j)
    (hserved : Served doc.registry j)
    (hstep : RowStep env doc.registry op doc.registry.factoryFence j j')
    (hget' : d'.jobs.get? doc.registry.factoryFence = some j')
    (hcreate : ¬ ∃ s, op = .create s) : Served d' j' := by
  have hback := fun id r' => @activeParamSize_back _ hs _ _ _ _ ho hcreate id r'
  rcases hserved with hactive | ⟨hrec, hfits⟩
  · cases hended : j'.status.terminal with
    | false => exact .inl hended
    | true =>
      unfold fenceSafe at hsafe
      simp only [hne, decide_false, Bool.false_or, hget, all_some] at hsafe
      rcases hstep.ends hactive hended with ⟨token, status, result, jobError, rfl, hholds,
        hterm, hfinish⟩ | ⟨actor, generation, rfl, hheld, hq⟩ | ⟨jobId, token, rfl, hid⟩
      · -- the owner failed, and frees the room of its own parameters
        simp only [hholds.token, hholds.running, hterm, ne_eq, not_true_eq_false, decide_false,
          Bool.not_true, Bool.false_or, Bool.and_eq_true, decide_eq_true_eq] at hsafe
        obtain ⟨⟨rfl, hkind⟩, hparams⟩ := hsafe
        refine .inr ⟨recoverable_of_failed hkind hparams hfinish, ?_⟩
        have hfreed := total_add_le hback hget hget'
        have hold : activeParamSize j = jsonSize ResetScope.factory.params := by
          rw [activeParamSize, hactive, hparams]
          rfl
        have hnew : activeParamSize j' = 0 := by
          rw [activeParamSize, hended]
          rfl
        have hmax := hb.params
        unfold ResetFits
        omega
      · simp only [hheld, hq, ne_eq, not_true_eq_false, decide_false, Bool.not_true,
          Bool.or_false] at hsafe
        cases hsafe
      · -- another job cannot raise the fence
        have hbegun := (begun_of_outcome ho).2
        cases outcome_fence hs ho with
        | kept hkept => exact absurd (hkept.symm.trans hbegun) hid
        | begun hop _ hfence _ =>
          rw [Op.beginFactoryFence.injEq] at hop
          rcases hfence with hempty | hsame
          · exact absurd hempty hne
          · exact absurd (hsame.trans hop.1.symm) hid
        | recovered hop | released hop => cases hop
  · refine .inr ⟨hstep.recoverable (terminal_of_recoverable hrec) hrec, ?_⟩
    have hle := total_le_of_stepped hback
    unfold ResetFits at *
    omega

structure FenceServed (doc : Document) : Prop where
  bounded : Bounded doc.registry
  owner : doc.registry.factoryFence ≠ "" → ∃ job,
    doc.registry.jobs.get? doc.registry.factoryFence = some job ∧ Served doc.registry job

theorem served_of_compacted {jobId token : String}
    {status : JobStatus} {result : JobResult} {appVersion buildSha : String}
    (ho : Outcome env d (.factoryCompact jobId token status result appVersion buildSha) val d') :
    d'.factoryFence = jobId ∧ ∃ receipt, d'.jobs.get? jobId = some receipt ∧ Served d' receipt := by
  cases ho with
  | held hlease hholds hstep => cases hstep
  | rowMissed hmissed => rcases hmissed with ⟨_, _, h⟩ | ⟨_, _, h⟩ | ⟨_, _, h⟩ <;> cases h
  | @compacted _ _ _ _ _ _ job hholds hfence hterm =>
    refine ⟨rfl, job.factoryReceipt env status result appVersion buildSha, ?_, .inr ⟨?_, ?_⟩⟩
    · rw [Dict.get?_set, if_pos rfl]
    · simp only [Job.recoverable, Job.factoryReceiptRow, Job.hasReceiptParams,
        Job.factoryReceipt, Job.transition, hterm]
      simp
    · have hzero : activeParamSize (job.factoryReceipt env status result appVersion buildSha) =
          0 := if_pos hterm
      have htotal := Dict.total_set_of_none (d := (Dict.empty : Dict String Job)) (k := jobId)
        (job.factoryReceipt env status result appVersion buildSha) activeParamSize rfl
      rw [hzero, Dict.total_empty] at htotal
      change (Dict.empty.set jobId _).total activeParamSize + _ ≤ _
      rw [htotal]
      decide

theorem owner_served (hs : Sound doc) (hf : FenceServed doc) (hsafe : fenceSafe doc op env = true)
    (ho : Outcome env doc.registry op val d') (hcreate : ¬ ∃ s, op = .create s)
    (hne' : d'.factoryFence ≠ "") :
    ∃ job, d'.jobs.get? d'.factoryFence = some job ∧ Served d' job := by
  by_cases hcompact : ∃ jobId token status result appVersion buildSha,
      op = .factoryCompact jobId token status result appVersion buildSha
  · obtain ⟨jobId, token, status, result, appVersion, buildSha, rfl⟩ := hcompact
    obtain ⟨hfence, hrow⟩ := served_of_compacted ho
    rw [hfence]
    exact hrow
  cases outcome_fence hs ho with
  | kept hkept =>
    rw [hkept] at hne' ⊢
    obtain ⟨j, hget, hserved⟩ := hf.owner hne'
    cases hget' : d'.jobs.get? doc.registry.factoryFence with
    | none =>
      exfalso
      unfold fenceSafe at hsafe
      simp only [hne', decide_false, Bool.false_or, hget, all_some] at hsafe
      cases dropped_of_outcome hs.keyed hs.keys ho hget hget' with
      | pruned hop => exact hcreate ⟨_, hop⟩
      | retired hop hof hnot =>
        subst hop
        simp only [hof, Bool.not_true, Bool.false_or, decide_eq_true_eq] at hsafe
        exact hnot hsafe
      | purged hop hpurge =>
        subst hop
        simp only [hpurge, ne_eq, not_true_eq_false, decide_false, Bool.not_true,
          Bool.or_false] at hsafe
        cases hsafe
      | compacted hop => exact hcompact ⟨_, _, _, _, _, _, hop⟩
    | some j' =>
      refine ⟨j', rfl, ?_⟩
      cases outcome_rows hs.keyed hs.keys ho hget' with
      | stepped hj hstep =>
        rw [hget, Option.some.injEq] at hj
        subst hj
        exact served_step hs hf.bounded hsafe ho hne' hget hserved hstep hget' hcreate
      | submitted hop => exact absurd ⟨_, hop⟩ hcreate
      | receipt hop => exact absurd ⟨_, _, _, _, _, _, hop⟩ hcompact
  | @begun jobId token hop hheld hfence hbegun =>
    subst hop
    obtain ⟨job, hholds⟩ := hheld
    have hactive : job.status.terminal = false := by
      rw [hholds.running]
      rfl
    rw [hbegun]
    cases hget' : d'.jobs.get? jobId with
    | none =>
      exfalso
      cases dropped_of_outcome hs.keyed hs.keys ho hholds.get hget' with
      | pruned hop | retired hop | purged hop | compacted hop => cases hop
    | some j' =>
      refine ⟨j', rfl, .inl ?_⟩
      cases outcome_rows hs.keyed hs.keys ho hget' with
      | submitted hop | receipt hop => cases hop
      | stepped hj hstep =>
        rw [hholds.get, Option.some.injEq] at hj
        subst hj
        cases hended : j'.status.terminal with
        | false => rfl
        | true =>
          rcases hstep.ends hactive hended with ⟨_, _, _, _, hop, -⟩ | ⟨_, _, hop, -⟩ |
            ⟨_, _, hop, hid⟩
          · cases hop
          · cases hop
          · rw [Op.beginFactoryFence.injEq] at hop
            exact absurd hop.1 hid
  | recovered hop => exact absurd ⟨_, hop⟩ hcreate
  | released _ _ hnext => exact absurd hnext hne'

theorem fenceServed_step {doc' : Document} (hs : Sound doc) (hf : FenceServed doc)
    (hsafe : fenceSafe doc op env = true)
    (hadm : op.admissible env doc = true) (ho : Outcome env doc.registry op val doc'.registry) :
    FenceServed doc' where
  bounded := bounded_step hs hf.bounded hadm ho
  owner := by
    generalize hd' : doc'.registry = d' at ho
    intro hne'
    by_cases hcreate : ∃ s, op = .create s
    · obtain ⟨s, rfl⟩ := hcreate
      cases ho with
      | bound | rowMissed => exact hf.owner hne'
      | held hlease => cases hlease
      | @created _ d1 pruned hbound hfence hprune hroom =>
        -- a submission under the fence is a recovery, and its job is queued
        have hp := pruneTerminal_spec hs.keyed hs.keys hprune
        cases hrec : doc.registry.recovery s.job env.nowMs with
        | true => exact ⟨s.job, by simp [createdRegistry], .inl rfl⟩
        | false =>
          exfalso
          rw [hrec] at hfence hne'
          rcases hfence with hempty | htrue
          · apply hne'
            change (expireArtifacts d1 (expiredAtCreate d1)).factoryFence = ""
            rw [expireArtifacts_factoryFence, hp.fence, hempty]
          · cases htrue
    · exact owner_served hs hf hsafe ho hcreate hne'

def NotWedged (doc : Document) : Prop :=
  doc.registry.factoryFence ≠ "" → ∃ job,
    doc.registry.jobs.get? doc.registry.factoryFence = some job ∧
      (job.status = .queued ∨ job.status = .running ∨ AdmitsReset doc)

/-- **A fence whose owner is left alone never wedges the registry.**  As long as no operation
cancels its owner while it is queued, removes its row, or finishes it as anything but a failed
factory reset, the fence names an active row or one that a factory reset takes it over from. -/
theorem fence_never_wedges_of_safe {doc : Document}
    (h : registryMachine.Reaches (fun doc e => fenceSafe doc e.1 e.2 = true) doc) :
    NotWedged doc := by
  have hs := sound_of_reaches h
  have hf : FenceServed doc := by
    refine registry_invariant (D := FenceServed) ?_ ?_ h
    · refine ⟨⟨by decide, by decide⟩, fun hne => absurd rfl hne⟩
    · intro doc doc' op env val hs hf hsafe hadm ho _
      exact fenceServed_step hs hf hsafe hadm ho
  intro hne
  obtain ⟨job, hget, hserved⟩ := hf.owner hne
  refine ⟨job, hget, ?_⟩
  rcases hserved with hactive | ⟨hrec, hfits⟩
  · cases hstatus : job.status with
    | queued => exact .inl rfl
    | running => exact .inr (.inl rfl)
    | succeeded | partialResult | failed | cancelled =>
      rw [hstatus] at hactive
      cases hactive
  · exact .inr (.inr (admitsReset_of_recoverable hs hf.bounded hne hget hrec hfits))

def failedReset : List (Op × Env) :=
  [(.create (sampleReset "job-1" "2026-01-01" 'a'), sampleEnv 0 "u"),
    (.claimNext "w1" 30000, sampleEnv 0 "t1"),
    (.beginFactoryFence "job-1" "t1", sampleEnv 1 "u"),
    (.finish "job-1" "t1" .failed none none, sampleEnv 2 "u")]

/-- The failed reset leaves a fence that the next factory reset takes over. -/
theorem fence_never_wedges_of_safe_of_failed_reset :
    ∃ doc : Document, doc.registry.factoryFence = "job-1" ∧ NotWedged doc := by
  have hrun : (registryMachine.run emptyDocument failedReset).any
      (fun doc => doc.registry.factoryFence = "job-1") = true := by decide
  have hsafe : registryMachine.Throughout (fun doc e => fenceSafe doc e.1 e.2 = true)
      emptyDocument failedReset := by decide
  obtain ⟨doc, hdoc, hfence⟩ := (Option.any_eq_true _ _).mp hrun
  have hreach : registryMachine.Reaches (fun doc e => fenceSafe doc e.1 e.2 = true) doc :=
    ⟨emptyDocument, failedReset, rfl, hsafe, hdoc⟩
  exact ⟨doc, of_decide_eq_true hfence, fence_never_wedges_of_safe hreach⟩

/-- The owner of the fence is cancelled while it runs; its worker is lost, and the next
one ends it as cancelled. -/
def cancelledReset : List (Op × Env) :=
  [(.create (sampleReset "job-1" "2026-01-01" 'a'), sampleEnv 0 "u"),
    (.claimNext "w1" 30000, sampleEnv 0 "t1"),
    (.beginFactoryFence "job-1" "t1", sampleEnv 1 "u"),
    (.requestCancel "job-1" "alice" none, sampleEnv 2 "u"),
    (.claimNext "w2" 30000, sampleEnv 40000 "t2"),
    (.finish "job-1" "t2" .cancelled none none, sampleEnv 40001 "u")]

/-- No factory reset is admitted under the fence of a cancelled one. -/
theorem fence_wedged_by_cancellation :
    ¬ ∀ doc, registryMachine.Reaches Machine.anyStep doc → NotWedged doc := by
  intro h
  obtain ⟨doc, -, hreach, hcheck⟩ := Machine.reaches_of_run registryMachine
    (fun doc => doc.registry.factoryFence = "job-1" &&
      (doc.registry.jobs.get? "job-1").all (fun job => job.status = .cancelled) &&
      Op.admissible (.create (sampleReset "job-2" "2026-01-02" 'b')) (sampleEnv 50000 "u") doc &&
      (doc.registry.idempotency.get? (sampleDigest 'b')).isNone &&
      match Op.change (.create (sampleReset "job-2" "2026-01-02" 'b'))
        (sampleEnv 50000 "u") doc with
      | .ok _ => false
      | .error _ => true) emptyDocument cancelledReset rfl (by decide)
  simp only [Bool.and_eq_true, decide_eq_true_eq, Option.isNone_iff_eq_none] at hcheck
  obtain ⟨⟨⟨⟨hfence, hstatus⟩, hadm⟩, hkey⟩, hrefused⟩ := hcheck
  have hne : doc.registry.factoryFence ≠ "" := by
    rw [hfence]
    decide
  obtain ⟨job, hget, hjob⟩ := h doc hreach hne
  rw [hfence] at hget
  rw [hget, Option.all_some, decide_eq_true_eq] at hstatus
  rcases hjob with hq | hr | hadmits
  · rw [hstatus] at hq
    cases hq
  · rw [hstatus] at hr
    cases hr
  · obtain ⟨pruned, doc', hok, -⟩ := hadmits _ _ hadm (by decide) hkey
    rw [hok] at hrefused
    cases hrefused

end AgenticKibana.Jobs
