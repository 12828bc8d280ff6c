import AgenticKibana.Jobs.Leases

/-!
# The factory fence

A factory reset raises the fence over the registry before it destroys anything.  Until the fence
is released or moves to a new factory reset, the registry serves its owner alone.  Claims,
submissions and projections each read the fence for themselves, two of them outside the
compare-and-set.
-/

namespace AgenticKibana.Jobs

open AgenticKibana.Library

inductive FenceStep (env : Env) (d : Registry) (op : Op) (d' : Registry) : Prop
  | kept (h : d'.factoryFence = d.factoryFence)
  | recovered {s : Submission} (hop : op = .create s)
      (hrec : d.recovery s.job env.nowMs = true) (h : d'.factoryFence = s.jobId)
  | begun {jobId token : String} (hop : op = .beginFactoryFence jobId token)
      (hheld : ∃ job, Holds d jobId token job)
      (hfence : d.factoryFence = "" ∨ d.factoryFence = jobId) (h : d'.factoryFence = jobId)
  | released {jobId : String} (hop : op = .releaseFactoryFence jobId)
      (hwas : d.factoryFence = jobId) (h : d'.factoryFence = "")

variable {env : Env} {val : Val} {e : CellEvent} {jobId token : String} {s t : CellState}
  {doc : Document} {d' : Registry}

theorem outcome_fence (hs : Sound doc) {op : Op} (ho : Outcome env doc.registry op val d') :
    FenceStep env doc.registry op d' := by
  cases ho with
  | @created s d1 pruned hbound hfence hprune hroom =>
    have hp := pruneTerminal_spec hs.keyed hs.keys hprune
    cases hrec : doc.registry.recovery s.job env.nowMs with
    | true => exact .recovered rfl hrec rfl
    | false =>
      apply FenceStep.kept
      change (expireArtifacts d1 (expiredAtCreate d1)).factoryFence = _
      rw [expireArtifacts_factoryFence, hp.fence]
  | retired hfold => exact .kept (retireActor_rows hs.keyed hs.keys hfold).1.fence
  | attached =>
    apply FenceStep.kept
    rw [expireArtifacts_factoryFence, write_factoryFence]
  | fenced hholds hfence hfold => exact .begun rfl ⟨_, hholds⟩ hfence rfl
  | @fenceReleased jobId _ =>
    by_cases hwas : doc.registry.factoryFence = jobId
    · exact .released rfl hwas (if_pos hwas)
    · exact .kept (if_neg hwas)
  | compacted hholds hfence hterm => exact .kept hfence.symm
  | _ => exact .kept rfl

/-- The job whose fence a step raises, when it commits `begin_factory_fence`. -/
def fenceBegun (s : CellState) (e : CellEvent) : Option String :=
  match CasCell.committed s e with
  | some ⟨.beginFactoryFence jobId _, _, _, _⟩ => some jobId
  | _ => none

/-- The step commits the release of the fence of `jobId`, or a submission that moves the
fence from it. -/
def fenceEnds (jobId : String) (s : CellState) (e : CellEvent) : Bool :=
  match CasCell.committed s e with
  | some ⟨.releaseFactoryFence id, _, _, _⟩ => id = jobId
  | some ⟨.create _, _, _, next⟩ => next.registry.factoryFence ≠ jobId
  | _ => false

theorem commits_of_fenceBegun (h : fenceBegun s e = some jobId) :
    ∃ token env val next, CasCell.Commits s e (.beginFactoryFence jobId token) env val next := by
  unfold fenceBegun at h
  split at h
  · next id token env val next hcommit =>
      obtain rfl := Option.some.inj h
      exact ⟨token, env, val, next, CasCell.commits_of_committed hcommit⟩
  · cases h

structure FenceOf (jobId : String) (doc : Document) : Prop where
  fence : doc.registry.factoryFence = jobId
  nonempty : jobId ≠ ""

theorem begun_of_outcome {d : Registry}
    (ho : Outcome env d (.beginFactoryFence jobId token) val d') :
    (∃ job, Holds d jobId token job) ∧ d'.factoryFence = jobId := by
  cases ho with
  | fenced hholds hfence hfold => exact ⟨⟨_, hholds⟩, rfl⟩
  | held hlease hholds hstep => cases hstep
  | rowMissed hmissed => rcases hmissed with ⟨_, _, h⟩ | ⟨_, _, h⟩ | ⟨_, _, h⟩ <;> cases h

theorem fenceOf_begun (h : registryCell.Reaches Machine.anyStep s)
    (hbegun : fenceBegun s e = some jobId)
    (hstep : registryCell.step s e = some t) : FenceOf jobId t.doc := by
  obtain ⟨token, env, val, next, hc⟩ := commits_of_fenceBegun hbegun
  have hs := sound_of_cell h
  obtain ⟨-, ho, -, -⟩ := commit_outcome hs (CasCell.snapshot_of_reaches h) hc
  obtain ⟨⟨job, hholds⟩, hfence⟩ := begun_of_outcome ho
  rw [hc.step_eq hstep]
  exact ⟨hfence, hs.id_ne_empty hholds.get⟩

theorem fenceOf_step (h : registryCell.Reaches Machine.anyStep s) (hf : FenceOf jobId s.doc)
    (hends : fenceEnds jobId s e = false) (hstep : registryCell.step s e = some t) :
    FenceOf jobId t.doc := by
  have hs := sound_of_cell h
  rcases cell_step hs (CasCell.snapshot_of_reaches h) hstep with
    hdoc | ⟨op, env, val, hc, hadm, ho, hissued⟩
  · rw [hdoc]
    exact hf
  · have hcommit := CasCell.committed_of_commits hc
    cases outcome_fence hs ho with
    | kept hkept => exact ⟨hkept.trans hf.fence, hf.nonempty⟩
    | recovered hop hrec hnext =>
      subst hop
      unfold fenceEnds at hends
      rw [hcommit] at hends
      exact ⟨by simpa using hends, hf.nonempty⟩
    | begun hop hheld hfence hnext =>
      rw [hf.fence] at hfence
      rcases hfence with hempty | hsame
      · exact absurd hempty hf.nonempty
      · exact ⟨hnext.trans hsame.symm, hf.nonempty⟩
    | released hop hwas hnext =>
      subst hop
      unfold fenceEnds at hends
      rw [hcommit] at hends
      exact absurd (hwas.symm.trans hf.fence) (by simpa using hends)

theorem fenceOf_run {es : List CellEvent}
    (h : registryCell.Reaches Machine.anyStep s) (hf : FenceOf jobId s.doc)
    (hopen : registryCell.Throughout (fun s e => fenceEnds jobId s e = false) s es)
    (hrun : registryCell.run s es = some t) : FenceOf jobId t.doc := by
  have hboth : registryCell.Reaches Machine.anyStep t ∧ FenceOf jobId t.doc := by
    refine Machine.run_preserves
      (I := fun s => registryCell.Reaches Machine.anyStep s ∧ FenceOf jobId s.doc)
      ?_ ⟨h, hf⟩ hopen hrun
    rintro s e t ⟨hreach, hf⟩ hends hst
    exact ⟨hreach.step trivial hst, fenceOf_step hreach hf hends hst⟩
  exact hboth.2

/-! ### What the fence keeps out -/

def Answer.jobIds : Answer → List String
  | .hint _ => []
  | .unsynced rows => rows.map Job.jobId
  | .unaudited rows => rows.map fun r => r.1.jobId

def offeredBy (t : CellState) : CellEvent → List String
  | .reply c =>
    match t.phase c with
    | .answered a => a.jobIds
    | _ => []
  | _ => []

variable {j : Job}

theorem mem_offered {snapshot fenceDoc : Registry} (hfence : fenceDoc.factoryFence = jobId)
    (hne : jobId ≠ "") (hj : j ∈ offered snapshot fenceDoc) : j.jobId = jobId := by
  have hmem := (List.mem_filter.mp hj).2
  rw [Bool.or_eq_true, decide_eq_true_eq, decide_eq_true_eq, hfence] at hmem
  rcases hmem with hempty | hsame
  · exact absurd hempty hne
  · exact hsame

variable {id : String}

/-- An answer offers the owner alone, however old its rows are: the fence it goes by is
that of the second read. -/
theorem answer_jobIds {first : Document} (hf : FenceOf jobId doc) (q : Query)
    (h : id ∈ (q.answer first doc).jobIds) : id = jobId := by
  cases q with
  | claimHint nowMs => cases h
  | unsyncedJobs =>
    obtain ⟨j, hj, rfl⟩ := List.mem_map.mp h
    exact mem_offered hf.fence hf.nonempty (List.mem_filter.mp hj).1
  | unauditedTransitions =>
    obtain ⟨⟨j, tr⟩, hj, rfl⟩ := List.mem_map.mp h
    obtain ⟨j', hj', hpair⟩ := List.mem_flatMap.mp hj
    obtain ⟨tr', -, heq⟩ := List.mem_map.mp hpair
    obtain ⟨rfl, rfl⟩ := Prod.mk.inj heq
    exact mem_offered hf.fence hf.nonempty hj'

theorem offered_owner (hf : FenceOf jobId s.doc) (hstep : registryCell.step s e = some t)
    (h : id ∈ offeredBy t e) : id = jobId := by
  cases CasCell.stepped_of_step hstep with
  | @replied c q first hphase =>
    simp only [offeredBy, CasCell.State.setPhase_phase_self] at h
    exact answer_jobIds hf q h
  | _ => cases h

theorem handedOut_owner (hreach : registryCell.Reaches Machine.anyStep s)
    (hf : FenceOf jobId s.doc) (h : handedOut s e = some (id, token)) : id = jobId := by
  obtain ⟨owner, leaseMillis, env, job, next, rfl, hc⟩ := commits_of_handedOut h
  obtain ⟨-, ho, -, -⟩ :=
    commit_outcome (sound_of_cell hreach) (CasCell.snapshot_of_reaches hreach) hc
  generalize hd' : next.registry = d' at ho
  generalize hval : Val.claimed (some (job, token)) = val at ho
  cases ho with
  | claimed hfirst =>
    simp only [Val.claimed.injEq, Option.some.injEq, Prod.mk.injEq] at hval
    obtain ⟨rfl, rfl⟩ := hval
    rw [claim_jobId]
    have hmem := (List.mem_filter.mp (firstMin_mem hfirst)).2
    simp only [Bool.and_eq_true, Bool.or_eq_true, decide_eq_true_eq, hf.fence] at hmem
    rcases hmem.1 with hempty | hsame
    · exact absurd hempty hf.nonempty
    · exact hsame
  | idle => cases hval
  | rowMissed hmissed => rcases hmissed with ⟨_, _, h⟩ | ⟨_, _, h⟩ | ⟨_, _, h⟩ <;> cases h
  | held hlease => cases hlease

/-- The step commits the submission of a freshly authorised factory reset under `id`, and
the fence is its own from then on. -/
def RecoveryCreate (s t : CellState) (e : CellEvent) (id : String) : Prop :=
  ∃ sub env val, CasCell.Commits s e (.create sub) env val t.doc ∧ sub.jobId = id ∧
    sub.job.freshFactoryReset env.nowMs = true ∧ t.doc.registry.factoryFence = id

theorem row_added (hreach : registryCell.Reaches Machine.anyStep s) (hf : FenceOf jobId s.doc)
    (hstep : registryCell.step s e = some t) (hnone : s.doc.registry.jobs.get? id = none)
    (hsome : t.doc.registry.jobs.get? id = some j) : RecoveryCreate s t e id := by
  have hs := sound_of_cell hreach
  rcases cell_step hs (CasCell.snapshot_of_reaches hreach) hstep with
    hdoc | ⟨op, env, val, hc, hadm, ho, hissued⟩
  · rw [hdoc, hnone] at hsome
    cases hsome
  · cases outcome_rows hs.keyed hs.keys ho hsome with
    | stepped hj =>
      rw [hnone] at hj
      cases hj
    | receipt hop hholds =>
      rw [hholds.get] at hnone
      cases hnone
    | @submitted sub hop hid =>
      subst hop hid
      generalize hd' : t.doc.registry = d' at ho hsome
      cases ho with
      | bound =>
        rw [hnone] at hsome
        cases hsome
      | rowMissed hmissed => rcases hmissed with ⟨_, _, h⟩ | ⟨_, _, h⟩ | ⟨_, _, h⟩ <;> cases h
      | held hlease => cases hlease
      | created hbound hfence hprune hroom =>
        rcases hfence with hempty | hrec
        · exact absurd (hf.fence.symm.trans hempty) hf.nonempty
        · refine ⟨sub, env, _, hc, rfl, ?_, ?_⟩
          · simp only [Registry.recovery, Bool.and_eq_true] at hrec
            exact hrec.2.2
          · rw [hd', createdRegistry, hrec]
            rfl

/-- The registry holds the receipt of `jobId`, which names nobody, and nothing else. -/
structure OnlyReceipt (jobId : String) (d : Registry) : Prop where
  row : ∃ receipt, d.jobs.entries = [(jobId, receipt)] ∧ receipt.sanitizedReceipt = true
  keys : d.idempotency.entries = []

theorem compacted_onlyReceipt (hreach : registryCell.Reaches Machine.anyStep s)
    (hf : FenceOf jobId s.doc) {status : JobStatus} {result : JobResult}
    {appVersion buildSha : String} {next : Document}
    (hc : CasCell.Commits s e (.factoryCompact id token status result appVersion buildSha) env val
      next) : OnlyReceipt jobId next.registry := by
  obtain ⟨-, ho, -, -⟩ :=
    commit_outcome (sound_of_cell hreach) (CasCell.snapshot_of_reaches hreach) hc
  generalize next.registry = d' at ho
  cases ho with
  | held hlease hholds hstep => cases hstep
  | rowMissed hmissed => rcases hmissed with ⟨_, _, h⟩ | ⟨_, _, h⟩ | ⟨_, _, h⟩ <;> cases h
  | compacted hholds hfence hterm =>
    obtain rfl := hfence.symm.trans hf.fence
    refine ⟨⟨_, rfl, ?_⟩, rfl⟩
    simp only [Job.sanitizedReceipt, Job.factoryReceipt, Job.transition, Job.hasReceiptParams]
    decide

/-- **The factory fence is exclusive.**  In every run of clients over the shared document,
from the commit of `begin_factory_fence` for a job until the fence is released or a
recovery moves it, the fence is the job's; a step hands out no other job, adds no row
but that of the recovery, offers no other job to the audit trail or to the Inbox, and
a compaction leaves the receipt alone. -/
theorem factory_fence_exclusive {s1 s2 s3 : CellState} {e1 : CellEvent} {es : List CellEvent}
    {jobId : String} (h : registryCell.Reaches Machine.anyStep s1)
    (hbegun : fenceBegun s1 e1 = some jobId) (hstep : registryCell.step s1 e1 = some s2)
    (hopen : registryCell.Throughout (fun s e => fenceEnds jobId s e = false) s2 es)
    (hrun : registryCell.run s2 es = some s3) :
    s3.doc.registry.factoryFence = jobId ∧
      ∀ e s4, registryCell.step s3 e = some s4 →
        (∀ id token, handedOut s3 e = some (id, token) → id = jobId) ∧
        (∀ id j, s3.doc.registry.jobs.get? id = none → s4.doc.registry.jobs.get? id = some j →
          RecoveryCreate s3 s4 e id) ∧
        (∀ id ∈ offeredBy s4 e, id = jobId) ∧
        ∀ id token status result appVersion buildSha env val,
          CasCell.Commits s3 e (.factoryCompact id token status result appVersion buildSha) env val
            s4.doc → OnlyReceipt jobId s4.doc.registry := by
  have h2 := h.step trivial hstep
  have h3 := h2.run hrun
  have hf := fenceOf_run h2 (fenceOf_begun h hbegun hstep) hopen hrun
  refine ⟨hf.fence, fun e s4 hst => ⟨?_, ?_, ?_, ?_⟩⟩
  · intro id token hout
    exact handedOut_owner h3 hf hout
  · intro id j hnone hsome
    exact row_added h3 hf hst hnone hsome
  · intro id hid
    exact offered_owner hf hst hid
  · intro id token status result appVersion buildSha env val hc
    exact compacted_onlyReceipt h3 hf hc

/-- A factory reset that raised the fence: it is the one job a claim can hand out. -/
theorem factory_fence_exclusive_of_one_reset :
    ∃ s : CellState, registryCell.Reaches Machine.anyStep s ∧
      s.doc.registry.factoryFence = "job-1" ∧
      ∀ e t, registryCell.step s e = some t →
        ∀ id token, handedOut s e = some (id, token) → id = "job-1" := by
  have hrun : ((registryCell.run quietCell
      (CasCell.solo (I := registryInterface) 0 (.create (sampleReset "job-1" "now" 'a'))
          (sampleEnv 0 "u") ++
        CasCell.solo (I := registryInterface) 1 (.claimNext "w1" 30000) (sampleEnv 0 "t1") ++
        [.call 1 (.beginFactoryFence "job-1" "t1"), .read 1 (sampleEnv 1 "u")])).any fun s1 =>
      decide (fenceBegun s1 (.put 1) = some "job-1") &&
        (registryCell.step s1 (.put 1)).isSome) = true := by decide
  simp only [Option.any_eq_true, Bool.and_eq_true, decide_eq_true_eq,
    Option.isSome_iff_exists] at hrun
  obtain ⟨s1, hrun1, hbegun, s2, hstep⟩ := hrun
  have h1 : registryCell.Reaches Machine.anyStep s1 :=
    ⟨quietCell, _, ⟨rfl, rfl, fun _ => rfl⟩, registryCell.throughout_anyStep _ _, hrun1⟩
  have hopen : registryCell.Throughout (fun s e => fenceEnds "job-1" s e = false) s2 [] := trivial
  have hnil : registryCell.run s2 [] = some s2 := rfl
  obtain ⟨hfence, hall⟩ := factory_fence_exclusive h1 hbegun hstep hopen hnil
  exact ⟨s2, h1.step trivial hstep, hfence, fun e t hst => (hall e t hst).1⟩

end AgenticKibana.Jobs
