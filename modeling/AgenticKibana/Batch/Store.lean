import AgenticKibana.Jobs.Model
import AgenticKibana.Library.Threads

/-!
# The batch-job registry and its store

The document of `stores/batch_jobs.py`: every batch job under its id, the fence of a factory reset
and the epoch that each reset moves on.  A mutation is one of the store's `_change` closures.
Clocks are in milliseconds; in the tracking entry of a custom id a key that is absent is `none`.

`BatchJobStore` as programs over the accesses to the registry of operator jobs, to its own
document, to the usage ledger and to the clock.  Any number of calls run at once; a call that is
delayed for ever is a crash at that await.  An access may fail before it takes effect, or take
effect and be answered by an error.  `obtained` stands where the caller of `save` or
`create_if_absent` got the job object it passes.
-/

namespace AgenticKibana.Batch

open AgenticKibana.Library

/-! ### Rows -/

inductive BatchJobState where
  | submitted
  | polling
  | retrieving
  | retrieved
  | errored
  | expired
deriving DecidableEq, Repr

structure Tracking where
  retrieved : Option Bool := none
  resultState : Option (Option String) := none
  recordingToken : Option String := none
  recordingAtMillis : Option Nat := none
  pendingResultState : Option String := none
  lastError : Option String := none
  reentryState : Option String := none
  reentryToken : Option String := none
  reentryAtMillis : Option Nat := none
  caseId : Option String := none
deriving DecidableEq, Repr

structure BatchInboxAudience where
  username : String
  accountGeneration : String
  state : String
  projectionSignature : String
deriving DecidableEq, Repr

abbrev Candidates := Dict String Json

structure BatchJob where
  id : String
  provider : String
  providerBatchId : Option String
  state : BatchJobState
  customIds : Dict String Tracking
  model : String
  discount : Json
  submittedAt : Option String
  polledAt : Option String
  requests : List Json
  submitAttempts : Nat
  lastError : Option String
  submissionLeaseToken : Option String
  submissionLeaseAtMillis : Nat
  candidates : Candidates
  inboxAudienceState : String
  inboxAudience : List BatchInboxAudience
  inboxAudienceTruncated : Nat
  summaryTotal : Nat
  summaryRetrieved : Nat
  summaryFailed : Nat
  terminalCompacted : Bool

abbrev Jobs := Dict String BatchJob

/-- `_RECORDING_LEASE_MILLIS`, `_SUBMISSION_LEASE_MILLIS` and `_MAX_JOBS`. -/
def recordingLeaseMillis : Nat := 5 * 60 * 1000

def submissionLeaseMillis : Nat := 5 * 60 * 1000

def maxJobs : Nat := 500

inductive Failure where
  | backend
  | runtime (message : String)
  | value (message : String)
deriving DecidableEq, Repr

/-- `value or ""`. -/
def orEmpty (text : Option String) : String := text.getD ""

namespace Tracking

def isRetrieved (entry : Tracking) : Bool := entry.retrieved == some true

/-- `str(entry.get("result_state") or "succeeded") != "succeeded"`. -/
def failed (entry : Tracking) : Bool :=
  Jobs.orText ((entry.resultState.getD none).getD "") "succeeded" != "succeeded"

def reentryOpen (entry : Tracking) : Bool :=
  let state := Jobs.orText (orEmpty entry.reentryState) "not_required"
  state == "pending" || state == "processing"

def active (token : Option String) (leasedAt : Option Nat) (nowMs : Nat) : Bool :=
  orEmpty token != "" && decide (nowMs < leasedAt.getD 0 + recordingLeaseMillis)

/-- `{**entry, **other}`. -/
def merge (entry other : Tracking) : Tracking where
  retrieved := other.retrieved <|> entry.retrieved
  resultState := other.resultState <|> entry.resultState
  recordingToken := other.recordingToken <|> entry.recordingToken
  recordingAtMillis := other.recordingAtMillis <|> entry.recordingAtMillis
  pendingResultState := other.pendingResultState <|> entry.pendingResultState
  lastError := other.lastError <|> entry.lastError
  reentryState := other.reentryState <|> entry.reentryState
  reentryToken := other.reentryToken <|> entry.reentryToken
  reentryAtMillis := other.reentryAtMillis <|> entry.reentryAtMillis
  caseId := other.caseId <|> entry.caseId

def unleased (entry : Tracking) : Tracking :=
  { entry with recordingToken := none, recordingAtMillis := none, pendingResultState := none }

def unclaimed (entry : Tracking) : Tracking :=
  { entry with reentryToken := none, reentryAtMillis := none }

end Tracking

/-! ### Terminal rows -/

namespace BatchJob

/-- `dict(job.custom_ids.get(cid) or {})`. -/
def entry (job : BatchJob) (cid : String) : Tracking := (job.customIds.get? cid).getD {}

def setEntry (job : BatchJob) (cid : String) (entry : Tracking) : BatchJob :=
  { job with customIds := job.customIds.set cid entry }

def tracked (job : BatchJob) : Dict String Tracking :=
  job.customIds.filter fun key _ => key ≠ "__meta__"

def refreshSummary (job : BatchJob) : BatchJob :=
  { job with
    summaryTotal := max job.summaryTotal (max job.tracked.size job.requests.length)
    summaryRetrieved :=
      max job.summaryRetrieved (job.tracked.values.countP Tracking.isRetrieved)
    summaryFailed := max job.summaryFailed
      (job.tracked.values.countP fun value => value.isRetrieved && value.failed) }

def allComplete (job : BatchJob) : Bool :=
  if job.terminalCompacted && job.state == .retrieved then true
  else if job.tracked.values.isEmpty then false
  else job.tracked.values.all fun value => value.isRetrieved && !value.reentryOpen

def abandoned (job : BatchJob) : Bool := job.state == .errored || job.state == .expired

def compactTerminal (job : BatchJob) : BatchJob :=
  if !(job.abandoned || (job.state == .retrieved && job.allComplete)) || job.terminalCompacted then
    job
  else
    let summarised := job.refreshSummary
    { summarised with
      summaryFailed :=
        if job.abandoned then
          max summarised.summaryFailed (summarised.summaryTotal - summarised.summaryRetrieved)
        else summarised.summaryFailed
      customIds := Dict.empty
      requests := []
      candidates := Dict.empty
      submissionLeaseToken := none
      submissionLeaseAtMillis := 0
      terminalCompacted := true }

/-- The sort key of the evictions, `(row.submitted_at or "", row.id)`. -/
def older (a b : BatchJob) : Bool :=
  let at1 := orEmpty a.submittedAt
  let at2 := orEmpty b.submittedAt
  decide (at1 < at2) || (at1 == at2 && decide (a.id ≤ b.id))

end BatchJob

/-- `sorted(rows, key=…)`. -/
def oldestFirst (rows : List BatchJob) : List BatchJob :=
  rows.insertionSort fun a b => a.older b = true

/-- `for old in rows: jobs.pop(old.id, None)`. -/
def popAll (jobs : Jobs) (rows : List BatchJob) : Jobs :=
  rows.foldl (fun jobs old => jobs.erase old.id) jobs

/-- What every mutation does first: compact the terminal rows and evict the oldest of the
compacted ones over the bound. -/
def trim (jobs : Jobs) : Jobs :=
  let jobs := jobs.mapValues fun _ job => job.compactTerminal
  if jobs.size > maxJobs then
    popAll jobs ((oldestFirst (jobs.values.filter (·.terminalCompacted))).take
      (jobs.size - maxJobs))
  else jobs

/-! ### Results of one row -/

inductive Value where
  | job (job : Option BatchJob)
  | created (job : BatchJob) (created : Bool)
  | submission (job : Option BatchJob) (token : Option String)
  | tokens (claimed : Dict String String)
  | flag (done : Bool)
  | number (n : Nat)

/-- The leases of `_lease_claim`, one id after the other; `n` counts the tokens drawn. -/
def leaseEntries (uuid : Nat → String) (nowMs : Nat) : List (String × String) → Nat →
    Dict String Tracking → Dict String String → Dict String Tracking × Dict String String
  | [], _, tracking, claimed => (tracking, claimed)
  | (cid, rstate) :: states, n, tracking, claimed =>
    let entry := (tracking.get? cid).getD {}
    if entry.isRetrieved || Tracking.active entry.recordingToken entry.recordingAtMillis nowMs then
      leaseEntries uuid nowMs states n tracking claimed
    else
      leaseEntries uuid nowMs states (n + 1)
        (tracking.set cid { entry with
          recordingToken := some (uuid n)
          recordingAtMillis := some nowMs
          pendingResultState := some rstate })
        (claimed.set cid (uuid n))

/-- The leases of `claim_reentries`. -/
def claimEntries (uuid : Nat → String) (nowMs : Nat) (candidates : Candidates) : List String →
    Nat → Dict String Tracking → Dict String String → Dict String Tracking × Dict String String
  | [], _, tracking, claimed => (tracking, claimed)
  | cid :: wanted, n, tracking, claimed =>
    let entry := (tracking.get? cid).getD {}
    if !entry.isRetrieved || !candidates.contains cid ||
        Jobs.orText (orEmpty entry.reentryState) "pending" == "complete" ||
        Tracking.active entry.reentryToken entry.reentryAtMillis nowMs then
      claimEntries uuid nowMs candidates wanted n tracking claimed
    else
      claimEntries uuid nowMs candidates wanted (n + 1)
        (tracking.set cid { entry with
          reentryState := some "processing"
          reentryToken := some (uuid n)
          reentryAtMillis := some nowMs })
        (claimed.set cid (uuid n))

namespace BatchJob

/-- The row after `_fail_ledger_lease`, if the lease is the caller's. -/
def failLedger (cid token message : String) (job : BatchJob) : Option BatchJob :=
  let entry := job.entry cid
  if entry.recordingToken ≠ some token ∨ entry.isRetrieved = true then none
  else some { job.setEntry cid { entry.unleased with lastError := some message } with
    lastError := some message }

def outstandingError (tracking : Dict String Tracking) : Option String :=
  (tracking.values.find? fun item => orEmpty item.lastError != "").map fun item =>
    Jobs.sliceTo 500 (orEmpty item.lastError)

/-- The entry that `_finalize_lease` writes. -/
def finalEntry (job : BatchJob) (cid resultState : String) : Tracking :=
  { (job.entry cid).unleased with
    retrieved := some true
    resultState := some (some resultState)
    lastError := none
    reentryState :=
      if resultState = "succeeded" ∧ job.candidates.contains cid = true then some "pending"
      else some "not_required" }

/-- The row after `_finalize_lease`, if the lease is the caller's. -/
def finalize (cid token resultState : String) (job : BatchJob) : Option BatchJob :=
  let entry := job.entry cid
  if entry.recordingToken ≠ some token ∨ entry.isRetrieved = true then none
  else
    let recorded := job.setEntry cid (job.finalEntry cid resultState)
    let recorded := { recorded with lastError := outstandingError recorded.customIds }
    some (if recorded.allComplete then
        BatchJob.compactTerminal { recorded with state := .retrieved }
      else { recorded with state := .retrieving })

/-- The row after `fail_reentry`, if the lease is the caller's. -/
def failReentry (cid token message : String) (job : BatchJob) : Option BatchJob :=
  let entry := job.entry cid
  if entry.reentryToken ≠ some token then none
  else some { job.setEntry cid { entry.unclaimed with
      reentryState := some "pending", lastError := some message } with
    lastError := some message
    state := .retrieving }

/-- The row after `complete_reentry`, if the lease is the caller's. -/
def completeReentry (cid token : String) (job : BatchJob) : Option BatchJob :=
  let entry := job.entry cid
  if entry.reentryToken ≠ some token then none
  else
    let folded := job.setEntry cid { entry.unclaimed with
      reentryState := some "complete", lastError := none }
    some (if folded.allComplete then
        BatchJob.compactTerminal { folded with state := .retrieved, lastError := none }
      else folded)

/-- What `complete_submission` merges into the row. -/
def accept (job remote : BatchJob) : BatchJob :=
  { job with
    provider := Jobs.orText remote.provider job.provider
    providerBatchId := remote.providerBatchId
    model := Jobs.orText remote.model job.model
    state := remote.state
    discount := remote.discount
    submittedAt := if orEmpty remote.submittedAt = "" then job.submittedAt else remote.submittedAt
    polledAt := if orEmpty remote.polledAt = "" then job.polledAt else remote.polledAt
    customIds := remote.customIds.entries.foldl (fun tracking (cid, other) =>
      tracking.set cid (((tracking.get? cid).getD {}).merge other)) job.customIds
    lastError := none
    submissionLeaseToken := none
    submissionLeaseAtMillis := 0 }

end BatchJob

/-! ### Mutations -/

/-- The `_change` closures of the store. -/
inductive Mutation where
  | save (job : BatchJob)
  | createIfAbsent (job : BatchJob)
  | claimSubmission (jobId : String) (nowMs : Nat)
  | failSubmission (jobId token error : String)
  | completeSubmission (jobId token : String) (remote : BatchJob)
  | setInboxAudience (jobId : String) (audience : List BatchInboxAudience) (truncated : Nat)
  | markInboxProjection (jobId username accountGeneration state signature : String)
  | delete (jobId : String)
  | leaseClaim (jobId : String) (states : Dict String String) (nowMs : Nat)
  | failLedgerLease (jobId cid token error : String)
  | finalizeLease (jobId cid token resultState : String)
  | claimReentries (jobId : String) (wanted : List String) (nowMs : Nat)
  | failReentry (jobId cid token error : String)
  | completeReentry (jobId cid token : String)

/-- `str(error or fallback)[:500]`. -/
def bounded (error fallback : String) : String := Jobs.sliceTo 500 (Jobs.orText error fallback)

/-- The mutations that look up a row, change it if `f` does, and say whether they did. -/
def onJob (jobs : Jobs) (jobId : String) (f : BatchJob → Option BatchJob) : Value × Jobs :=
  match jobs.get? jobId with
  | none => (.flag false, jobs)
  | some job =>
    match f job with
    | none => (.flag false, jobs)
    | some job => (.flag true, jobs.set jobId job)

def onLeases (jobs : Jobs) (jobId : String) (refuses : BatchJob → Bool)
    (f : BatchJob → Dict String Tracking × Dict String String) : Value × Jobs :=
  match jobs.get? jobId with
  | none => (.tokens Dict.empty, jobs)
  | some job =>
    if refuses job then (.tokens Dict.empty, jobs)
    else
      let (tracking, claimed) := f job
      if claimed.size = 0 then (.tokens Dict.empty, jobs)
      else (.tokens claimed, jobs.set jobId { job with customIds := tracking })

/-- The rows that `create_if_absent` may evict. -/
def BatchJob.evictable (row : BatchJob) : Bool :=
  (row.state == .retrieved || row.abandoned) && (row.terminalCompacted || row.allComplete)

/-- `_change` of `create_if_absent`. -/
def createIfAbsent (job : BatchJob) (jobs : Jobs) : Except Failure (Value × Jobs) :=
  match jobs.get? job.id with
  | some existing => .ok (.created existing false, jobs)
  | none =>
    let jobs :=
      if jobs.size ≥ maxJobs then
        popAll jobs ((oldestFirst (jobs.values.filter BatchJob.evictable)).take
          (jobs.size + 1 - maxJobs))
      else jobs
    if jobs.size ≥ maxJobs then .error (.runtime "batch-job registry capacity is exhausted")
    else .ok (.created job true, jobs.set job.id job)

/-- `_change` of `claim_submission`. -/
def claimSubmission (uuid : Nat → String) (jobId : String) (nowMs : Nat) (jobs : Jobs) :
    Value × Jobs :=
  match jobs.get? jobId with
  | none => (.submission none none, jobs)
  | some job =>
    if orEmpty job.providerBatchId != "" || job.requests.isEmpty then
      (.submission (some job) none, jobs)
    else if orEmpty job.submissionLeaseToken != "" &&
        decide (nowMs < job.submissionLeaseAtMillis + submissionLeaseMillis) then
      (.submission (some job) none, jobs)
    else
      let leased := { job with
        submissionLeaseToken := some (uuid 0)
        submissionLeaseAtMillis := nowMs
        submitAttempts := job.submitAttempts + 1 }
      (.submission (some leased) (some (uuid 0)), jobs.set jobId leased)

def onSubmission (jobs : Jobs) (jobId token refusal : String) (f : BatchJob → BatchJob) :
    Except Failure (Value × Jobs) :=
  match jobs.get? jobId with
  | none => .ok (.job none, jobs)
  | some job =>
    if job.submissionLeaseToken ≠ some token then .error (.runtime refusal)
    else .ok (.job (some (f job)), jobs.set jobId (f job))

def onInbox (jobs : Jobs) (jobId expected : String) (f : BatchJob → Option BatchJob) :
    Value × Jobs :=
  match jobs.get? jobId with
  | none => (.job none, jobs)
  | some job =>
    if job.inboxAudienceState ≠ expected then (.job (some job), jobs)
    else
      match f job with
      | none => (.job (some job), jobs)
      | some job => (.job (some job), jobs.set jobId job)

def acknowledge (lower : String → String) (needle generation state signature : String) :
    List BatchInboxAudience → Option (List BatchInboxAudience)
  | [] => none
  | member :: rest =>
    if lower (Jobs.strip member.username) = needle ∧ member.accountGeneration = generation then
      some ({ member with
        state := state
        projectionSignature := if state = "projected" then signature else "" } :: rest)
    else (acknowledge lower needle generation state signature rest).map (member :: ·)

/-- What an attempt takes from the interpreter: fresh identifiers and case folding. -/
structure Env where
  uuid : Nat → String
  lower : String → String

namespace Mutation

/-- The `_change` of a mutation. -/
def change (env : Env) : Mutation → Jobs → Except Failure (Value × Jobs)
  | .save job, jobs =>
    .ok (.job (some job.compactTerminal), jobs.set job.id job.compactTerminal)
  | .createIfAbsent job, jobs => Batch.createIfAbsent job jobs
  | .claimSubmission jobId nowMs, jobs =>
    .ok (Batch.claimSubmission env.uuid (Jobs.strip jobId) nowMs jobs)
  | .failSubmission jobId token error, jobs =>
    onSubmission jobs (Jobs.strip jobId) token
      "batch submission lease ownership changed before failure was recorded" fun job =>
      { job with
        state := .submitted
        lastError := some (bounded error "batch provider submission failed")
        submissionLeaseToken := none
        submissionLeaseAtMillis := 0 }
  | .completeSubmission jobId token remote, jobs =>
    onSubmission jobs (Jobs.strip jobId) token
      "batch submission lease ownership changed before acceptance was recorded" fun job =>
      job.accept remote
  | .setInboxAudience jobId audience truncated, jobs =>
    .ok (onInbox jobs jobId "pending" fun job => some { job with
      inboxAudience := audience.take 200
      inboxAudienceTruncated := truncated
      inboxAudienceState := "ready" })
  | .markInboxProjection jobId username generation state signature, jobs =>
    .ok (onInbox jobs jobId "ready" fun job =>
      (acknowledge env.lower (env.lower (Jobs.strip username)) generation state signature
        job.inboxAudience).map fun audience => { job with inboxAudience := audience })
  | .delete jobId, jobs =>
    .ok (.flag (jobs.contains (Jobs.strip jobId)), jobs.erase (Jobs.strip jobId))
  | .leaseClaim jobId states nowMs, jobs =>
    .ok (onLeases jobs jobId (·.terminalCompacted) fun job =>
      leaseEntries env.uuid nowMs states.entries 0 job.customIds Dict.empty)
  | .failLedgerLease jobId cid token error, jobs =>
    .ok (onJob jobs jobId
      (BatchJob.failLedger cid token (bounded error "batch ledger persistence failed")))
  | .finalizeLease jobId cid token resultState, jobs =>
    .ok (onJob jobs jobId (BatchJob.finalize cid token resultState))
  | .claimReentries jobId wanted nowMs, jobs =>
    .ok (onLeases jobs jobId (fun _ => false) fun job =>
      claimEntries env.uuid nowMs job.candidates wanted 0 job.customIds Dict.empty)
  | .failReentry jobId cid token error, jobs =>
    .ok (onJob jobs jobId
      (BatchJob.failReentry cid token (bounded error "detection re-entry failed")))
  | .completeReentry jobId cid token, jobs =>
    .ok (onJob jobs jobId (BatchJob.completeReentry cid token))

end Mutation

structure Registry where
  jobs : Jobs
  factoryFence : String
  resetEpoch : Nat

inductive Closure where
  | mutation (m : Mutation) (admittedEpoch : Nat)
  | beginFactoryFence (owner : String)
  | clearAll (owner : String)
  | releaseFactoryFence (owner : String)

/-- The `_mutator` of a closure. -/
def Closure.apply (env : Env) : Closure → Registry → Except Failure (Value × Registry)
  | .mutation m admittedEpoch, current =>
    if current.factoryFence ≠ "" ∨ current.resetEpoch ≠ admittedEpoch then
      .error (.runtime "factory reset changed the Batch registry before mutation")
    else (m.change env (trim current.jobs)).map fun (value, jobs) =>
      (value, { current with jobs := jobs })
  | .beginFactoryFence owner, current =>
    let epoch :=
      if current.factoryFence ≠ owner then current.resetEpoch + 1 else current.resetEpoch
    .ok (.number epoch, { current with factoryFence := owner, resetEpoch := epoch })
  | .clearAll owner, current =>
    if owner ≠ "" then
      if current.factoryFence ≠ owner then
        .error (.runtime "factory Batch fence ownership changed")
      else .ok (.number current.jobs.size,
        { current with jobs := Dict.empty, resetEpoch := current.resetEpoch + 1 })
    else if current.factoryFence ≠ "" then
      .error (.runtime "factory reset owns the Batch registry fence")
    else .ok (.number current.jobs.size,
      { current with jobs := Dict.empty, resetEpoch := current.resetEpoch + 1 })
  | .releaseFactoryFence owner, current =>
    if current.factoryFence ≠ owner then
      .error (.runtime "factory Batch fence ownership changed")
    else .ok (.number 0, { current with factoryFence := "" })

open Routine

/-! ### What the calls act on -/

/-- The arguments of a strict usage write, its constants apart. -/
structure LedgerRow where
  key : String
  role : String
  surface : String
  caseId : Option String
  model : String
  promptTokens : Nat
  completionTokens : Nat
  cacheReadTokens : Nat
  cacheWriteTokens : Nat
  ok : Bool
deriving DecidableEq, Repr

structure BatchResult where
  customId : String
  resultType : String
  model : String
  promptTokens : Nat
  completionTokens : Nat
  cacheReadTokens : Nat
  cacheWriteTokens : Nat
deriving DecidableEq, Repr

inductive Outcome where
  | value (value : Value)
  | results (recorded : List BatchResult)

inductive Entry where
  | obtained (τ : Nat)
  | admitted (τ : Nat) (m : Mutation) (epoch : Nat)
  | wrote (τ : Nat) (c : Closure) (env : Env) (value : Value) (before after : Registry)
  | recorded (τ : Nat) (jobId cid : String) (row : LedgerRow)
  | returned (τ : Nat) (jobId : String) (outcome : Outcome)

def Entry.by : Entry → Nat
  | .obtained τ | .admitted τ _ _ | .wrote τ _ _ _ _ _ | .recorded τ _ _ _ | .returned τ _ _ => τ

structure World where
  registry : Registry
  rev : Nat
  jobsFence : String
  ledger : Dict String LedgerRow
  history : List Entry

def World.record (s : World) (e : Entry) : World := { s with history := s.history ++ [e] }

inductive Act where
  /-- The factory fence of the operator jobs. -/
  | jobsFence
  /-- The read a caller of `save` or `create_if_absent` has its job from. -/
  | obtain
  /-- The admission read of `_mutate`. -/
  | admission (m : Mutation)
  /-- The read of an attempt. -/
  | read
  | now
  | env
  | putIf (c : Closure) (env : Env) (value : Value) (next : Registry) (base : Nat)
  /-- The usage write of a result. -/
  | record (jobId cid : String) (row : LedgerRow)

def Act.Reply : Act → Type
  | .jobsFence => Except Failure String
  | .obtain => Except Failure Jobs
  | .admission _ => Except Failure Registry
  | .read => Except Failure (Registry × Nat)
  | .now => Nat
  | .env => Env
  | .putIf .. => Except Failure Bool
  | .record .. => Except Failure Unit

inductive Fault where
  | answered
  | lost
  | unseen
deriving DecidableEq, Repr

structure Answer where
  fault : Fault
  now : Nat
  env : Env

def Answer.reply {α : Type} (answer : Answer) (a : α) : Except Failure α :=
  if answer.fault = .answered then .ok a else .error .backend

/-- `put_if_strict`. -/
def World.putIf (s : World) (τ : Nat) (c : Closure) (env : Env) (value : Value) (next : Registry)
    (base : Nat) : World :=
  if base = s.rev then
    { s.record (.wrote τ c env value s.registry next) with registry := next, rev := s.rev + 1 }
  else s

def World.write (s : World) (row : LedgerRow) : World :=
  { s with ledger := s.ledger.setDefault row.key row }

/-! ### The calls -/

/-- The calls, with the thread's own arguments.  `object` is what the caller passes to
`save` or `create_if_absent`, from the rows it has loaded. -/
inductive Request where
  | save (object : Jobs → Option BatchJob)
  | createIfAbsent (object : Jobs → Option BatchJob)
  | claimSubmission (jobId : String)
  | failSubmission (jobId token error : String)
  | completeSubmission (jobId token : String) (remote : BatchJob)
  | setInboxAudience (jobId : String) (audience : List BatchInboxAudience) (truncated : Nat)
  | markInboxProjection (jobId username accountGeneration state signature : String)
  | delete (jobId : String)
  | processResults (job : BatchJob) (results : List BatchResult) (role surface : String)
  | claimReentries (jobId : String) (customIds : List String)
  | failReentry (jobId cid token error : String)
  | completeReentry (jobId cid token : String)
  | beginFactoryFence (owner : String)
  | clearAll (factoryOwner : Option String)
  | releaseFactoryFence (owner : String)

/-- An access of a call: what it does, what it replies. -/
def effect (τ _fresh : Nat) (a : Act) (answer : Answer) (s : World) :
    Option (World × a.Reply × List Request) :=
  match a with
  | .jobsFence => some (s, answer.reply s.jobsFence, [])
  | .obtain => some (s.record (.obtained τ), answer.reply s.registry.jobs, [])
  | .admission m =>
    some (s.record (.admitted τ m s.registry.resetEpoch), answer.reply s.registry, [])
  | .read => some (s, answer.reply (s.registry, s.rev), [])
  | .now => some (s, answer.now, [])
  | .env => some (s, answer.env, [])
  | .putIf c env value next base =>
    match answer.fault with
    | .answered => some (s.putIf τ c env value next base, .ok (decide (base = s.rev)), [])
    | .lost => some (s, .error .backend, [])
    | .unseen => some (s.putIf τ c env value next base, .error .backend, [])
  | .record jobId cid row =>
    match answer.fault with
    | .answered => some ((s.write row).record (.recorded τ jobId cid row), .ok (), [])
    | .lost => some (s, .error .backend, [])
    | .unseen => some (s.write row, .error .backend, [])

abbrev Prog (α : Type) : Type := Routine Act.Reply Failure Unit α

namespace Store

def act (a : Act) : Prog a.Reply := perform a

/-- `kv_mutate_strict`, with the attempts that are left. -/
def kvMutateStrict (c : Closure) : Nat → Prog Value
  | 0 => raise (.runtime "strict KV mutate conflict for batch_jobs/jobs after 8 attempts")
  | n + 1 => do
      let reply ← act .read
      let (current, base) ← ofExcept reply
      let env ← act .env
      let (value, next) ← ofExcept (c.apply env current)
      let reply ← act (.putIf c env value next base)
      let written ← ofExcept reply
      if written then pure value else kvMutateStrict c n

def kvMutateRetries : Nat := 8

def checkJobsFence (message : String) : Prog Unit := do
  let reply ← act .jobsFence
  let fence ← ofExcept reply
  when (fence != "") (raise (.runtime message))

def mutate (m : Mutation) : Prog Value := do
  checkJobsFence "factory reset is in progress; Batch mutation is fenced"
  let reply ← act (.admission m)
  let admitted ← ofExcept reply
  when (admitted.factoryFence != "")
    (raise (.runtime "factory reset is in progress; Batch mutation is fenced"))
  let value ← kvMutateStrict (.mutation m admitted.resetEpoch) kvMutateRetries
  checkJobsFence "factory reset began during Batch mutation"
  pure value

/-- A call of `save` or `create_if_absent`, from where its caller has the job. -/
def withObject (object : Jobs → Option BatchJob) (m : BatchJob → Mutation) : Prog Value := do
  let reply ← act .obtain
  let rows ← ofExcept reply
  match object rows with
  | none => pure (.job none)
  | some job => mutate (m job)

def owned (owner : String) (c : String → Closure) : Prog Value :=
  if Jobs.strip owner = "" then raise (.value "factory fence owner is required")
  else kvMutateStrict (c (Jobs.strip owner)) kvMutateRetries

/-- `clear_all_strict`: the owner of the factory fence, if there is one, names itself. -/
def clearAllStrict (factoryOwner : Option String) : Prog Value :=
  kvMutateStrict (.clearAll (Jobs.strip (orEmpty factoryOwner))) kvMutateRetries

def markInboxProjection (jobId username generation state signature : String) : Prog Value :=
  if state ∈ ["pending", "projected", "revoked"] then
    mutate (.markInboxProjection jobId username generation state signature)
  else raise (.value "invalid Batch Inbox projection state")

def claimSubmission (jobId : String) : Prog Value := do
  let nowMs ← act .now
  mutate (.claimSubmission jobId nowMs)

/-- `{str(cid).strip() for cid in custom_ids if str(cid).strip()}`, in some order. -/
def wantedIds (customIds : List String) : List String :=
  ((customIds.map Jobs.strip).filter (· != "")).dedup

def claimReentries (jobId : String) (customIds : List String) : Prog Value := do
  let nowMs ← act .now
  mutate (.claimReentries jobId (wantedIds customIds) nowMs)

/-! ### `process_results` -/

def byCustomId (results : List BatchResult) : Dict String BatchResult :=
  results.foldl (fun byId res =>
    if Jobs.strip res.customId = "" then byId
    else byId.setDefault (Jobs.strip res.customId) res) Dict.empty

def ledgerKey (jobId cid : String) : String := "batch:" ++ jobId ++ ":" ++ cid

def caseIdFor (job : BatchJob) (cid : String) : Option String :=
  match (job.entry cid).caseId with
  | some caseId => if caseId = "" then none else some caseId
  | none => none

def usageRow (job : BatchJob) (role surface cid : String) (res : BatchResult) : LedgerRow :=
  let succeeded := decide (res.resultType = "succeeded")
  { key := ledgerKey job.id cid
    role := role
    surface := surface
    caseId := caseIdFor job cid
    model := Jobs.orText res.model job.model
    promptTokens := if succeeded then res.promptTokens else 0
    completionTokens := if succeeded then res.completionTokens else 0
    cacheReadTokens := if succeeded then res.cacheReadTokens else 0
    cacheWriteTokens := if succeeded then res.cacheWriteTokens else 0
    ok := succeeded }

def text : Failure → String
  | .backend => "backend error"
  | .runtime message | .value message => message

/-- The leases that `_lease_claim` granted. -/
def granted : Value → Dict String String
  | .tokens claimed => claimed
  | _ => Dict.empty

def done : Value → Bool
  | .flag done => done
  | _ => false

/-- The loop of `process_results` over the leases it was granted. -/
def foldLeases (job : BatchJob) (byId : Dict String BatchResult) (role surface : String) :
    List (String × String) → Prog (List BatchResult)
  | [] => pure []
  | (cid, token) :: leases =>
    match byId.get? cid with
    | none => do
        let _ ← mutate (.failLedgerLease job.id cid token
          "provider result disappeared before ledger fold")
        foldLeases job byId role surface leases
    | some res => do
        let reply ← act (.record job.id cid (usageRow job role surface cid res))
        match reply with
        | .error e => do
            let _ ← mutate (.failLedgerLease job.id cid token
              ("usage persistence failed: " ++ text e))
            foldLeases job byId role surface leases
        | .ok () => do
            let finalised ← mutate (.finalizeLease job.id cid token res.resultType)
            let recorded ← foldLeases job byId role surface leases
            pure (if done finalised && res.resultType == "succeeded" then res :: recorded
              else recorded)

def processResults (job : BatchJob) (results : List BatchResult) (role surface : String) :
    Prog (List BatchResult) :=
  let byId := byCustomId results
  if byId.size = 0 then pure []
  else do
    let nowMs ← act .now
    let leases ← mutate
      (.leaseClaim job.id (byId.mapValues fun _ res => res.resultType) nowMs)
    foldLeases job byId role surface (granted leases).entries

end Store

def program : Request → Code Act.Reply Failure Outcome
  | .save object => (Store.withObject object .save).main () .value
  | .createIfAbsent object => (Store.withObject object .createIfAbsent).main () .value
  | .claimSubmission jobId => (Store.claimSubmission jobId).main () .value
  | .failSubmission jobId token error =>
    (Store.mutate (.failSubmission jobId token error)).main () .value
  | .completeSubmission jobId token remote =>
    (Store.mutate (.completeSubmission jobId token remote)).main () .value
  | .setInboxAudience jobId audience truncated =>
    (Store.mutate (.setInboxAudience jobId audience truncated)).main () .value
  | .markInboxProjection jobId username generation state signature =>
    (Store.markInboxProjection jobId username generation state signature).main () .value
  | .delete jobId => (Store.mutate (.delete jobId)).main () .value
  | .processResults job results role surface =>
    (Store.processResults job results role surface).main () .results
  | .claimReentries jobId customIds => (Store.claimReentries jobId customIds).main () .value
  | .failReentry jobId cid token error =>
    (Store.mutate (.failReentry jobId cid token error)).main () .value
  | .completeReentry jobId cid token =>
    (Store.mutate (.completeReentry jobId cid token)).main () .value
  | .beginFactoryFence owner => (Store.owned owner .beginFactoryFence).main () .value
  | .clearAll factoryOwner => (Store.clearAllStrict factoryOwner).main () .value
  | .releaseFactoryFence owner => (Store.owned owner .releaseFactoryFence).main () .value

inductive Event where
  | call (request : Request)
  | jobsFence (fence : String)
  | crash

/-- Only the calls that `calls` admits arrive. -/
def outside (calls : Request → Bool) (_fresh : Nat) (e : Event) (s : World) :
    Option (World × List Request × Bool) :=
  match e with
  | .call request => if calls request then some (s, [request], false) else none
  | .jobsFence fence => some ({ s with jobsFence := fence }, [], false)
  | .crash => some (s, [], true)

def Request.folded : Request → String
  | .processResults job _ _ _ => job.id
  | _ => ""

def retire (τ : Nat) (request : Request) (result : Except Failure Outcome) (s : World) : World :=
  match result with
  | .ok outcome => s.record (.returned τ request.folded outcome)
  | .error _ => s

def batch (calls : Request → Bool) :
    Threads Act.Reply Request Failure Outcome Answer Event World where
  code := program
  perform := effect
  retire := retire
  outside := outside calls

abbrev BatchStore : Type := Pool Act.Reply Request Failure Outcome World

/-- Runs of the store on a registry that meets `P`; nothing has been done yet. -/
def batchMachine (calls : Request → Bool) (P : Registry → Prop) :
    Machine BatchStore (Turn Answer Event) :=
  (batch calls).machine fun s => s.history = [] ∧ P s.registry

end AgenticKibana.Batch
