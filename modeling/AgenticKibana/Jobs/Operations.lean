import AgenticKibana.Jobs.Model
import AgenticKibana.Library.CasCell

/-!
# The job store, and the registry as a shared document

Every operation of the store as a function from the registry it reads to what it returns and the
registry it writes, or to what it raises; an operation that raises writes nothing.  An operation
of a worker names the job and the lease token it was handed, and `owned` comes first.

The registry is a compare-and-set cell.  Its document carries, beside the registry, the
identifiers drawn so far (`issued`), which are stored nowhere: they say that a job id, a lease
token or an artifact id is fresh when it is drawn.
-/

namespace AgenticKibana.Jobs

open AgenticKibana.Library

/-! ### Reading the document -/

/-- `_decode`, and the check that no row was dropped by it.  A key whose row is gone
is not decoded. -/
def Registry.decode (d : Registry) : Except JobError Registry :=
  if d.jobs.values.all Job.validates then
    .ok { d with idempotency := d.idempotency.filter fun _ id => d.jobs.contains id }
  else .error (.valueError "job registry contains an invalid record")

/-- `_mutate` and `_mutate_meta`: run a change on the decoded document. -/
def mutate {α : Type} (d : Registry) (change : Registry → Except JobError (α × Registry)) :
    Except JobError (α × Registry) := do
  change (← d.decode)

def Registry.owned (d : Registry) (jobId token : String) : Except JobError Job :=
  match d.jobs.get? jobId with
  | none => .error (.keyError jobId)
  | some job =>
    if job.leaseToken ≠ some token ∨ job.status ≠ .running then
      .error (.runtimeError "job worker lease ownership changed")
    else .ok job

/-- `jobs[job_id] = job`. -/
def Registry.write (d : Registry) (jobId : String) (job : Job) : Registry :=
  { d with jobs := d.jobs.set jobId job }

/-- `jobs.pop(job_id, None)`, and the key of the row if it is bound to it. -/
def Registry.drop (d : Registry) (jobId : String) (job : Job) : Registry :=
  { d with
    jobs := d.jobs.erase jobId
    idempotency :=
      if d.idempotency.get? job.idempotencyKeyHash = some jobId then
        d.idempotency.erase job.idempotencyKeyHash
      else d.idempotency }

def ownedUpdate {α : Type} (d : Registry) (jobId token : String)
    (change : Job → Except JobError (α × Job)) : Except JobError (α × Registry) :=
  mutate d fun d => do
    let job ← d.owned jobId token
    let (value, job) ← change job
    return (value, d.write jobId job)

def rowUpdate (d : Registry) (jobId : String) (change : Job → Except JobError Job) :
    Except JobError (Option Job × Registry) :=
  mutate d fun d =>
    match d.jobs.get? jobId with
    | none => .ok (none, d)
    | some job => do
        let job ← change job
        return (some job, d.write jobId job)

/-- `(finished_at or created_at, job_id)`. -/
def endKey (j : Job) : String × String := (j.endedAt, j.jobId)

/-- `(created_at, job_id)`. -/
def createdKey (j : Job) : String × String := (j.createdAt, j.jobId)

def keyLe (a b : String × String) : Bool := a.1 < b.1 || (a.1 = b.1 && a.2 ≤ b.2)

/-- `min(rows, key=key)`: the first of the least rows. -/
def firstMin (key : Job → String × String) : List Job → Option Job
  | [] => none
  | j :: js =>
    match firstMin key js with
    | none => some j
    | some best => if keyLe (key j) (key best) then some j else some best

/-- `sorted(rows, key=endKey, reverse=True)`. -/
def newestFirst (rows : List Job) : List Job :=
  rows.insertionSort fun a b => keyLe (endKey b) (endKey a)

/-! ### Admission -/

def factoryFenceMessage : String :=
  "factory reset recovery is in progress; only a fresh factory reset retry may be submitted"

def fullMessage : String :=
  "job registry is full of active work; retry after a job finishes"

def paramCapacityMessage : String :=
  "active job parameters exceed the bounded registry capacity"

def keyConflictMessage : String :=
  "idempotency key is already bound to a different job request"

/-- The submitter holds `users:manage`. -/
def Job.hasFactoryGrant (j : Job) : Bool :=
  j.requiredPermissions.any fun grant => grant.resource = "users" && grant.action = "manage"

/-- The step-up authorisation of the submitter has not run out. -/
def Job.freshEnough (j : Job) (nowMs : Nat) : Bool :=
  j.actor = "" || j.actorGeneration = "" || nowMs < j.freshAuthorizedUntilMillis

/-- The fenced row is one a recovery may take over from: a failed factory reset, or
the sanitized receipt of one. -/
def Job.recoverable (fenced : Job) : Bool :=
  fenced.factoryReceiptRow &&
    (fenced.status = .failed ||
      (fenced.actor = "" && fenced.requestFingerprint = "" && fenced.idempotencyKeyHash = "" &&
        fenced.status.terminal))

def Job.freshFactoryReset (job : Job) (nowMs : Nat) : Bool :=
  job.kind = .tieredReset && job.params.get? "scope" = some (.str "factory") &&
    job.hasFactoryGrant && job.freshEnough nowMs

/-- Room for one more row: the terminal row that ended first leaves, until there is
room. -/
def pruneTerminal : Nat → Registry → Except JobError (Registry × List JobArtifact)
  | 0, d => .ok (d, [])
  | fuel + 1, d =>
    if d.jobs.size < maxJobs then .ok (d, [])
    else
      match firstMin endKey (d.jobs.values.filter fun j => j.status.terminal) with
      | none => .error (.jobCapacity fullMessage)
      | some victim => do
          let (d', pruned) ← pruneTerminal fuel (d.drop victim.jobId victim)
          return (d', victim.artifact.toList ++ pruned)

def expireArtifacts (d : Registry) (rows : List Job) : Registry :=
  rows.foldl (fun d row => d.write row.jobId row.expireArtifact) d

def expiredAtCreate (d : Registry) : List Job :=
  (newestFirst (d.jobs.values.filter fun j => j.status.terminal && j.artifact.isSome)).drop
    (maxRetainedArtifacts - 1)

def activeParamSize (j : Job) : Nat := if j.status.terminal then 0 else jsonSize j.params

def Registry.boundTo (d : Registry) (keyHash : String) : Option String :=
  (d.idempotency.get? keyHash).filter fun bound => bound ≠ ""

def create (d : Registry) (env : Env) (job : Job) :
    Except JobError ((Job × Bool × List JobArtifact) × Registry) :=
  mutate d fun d =>
    match d.boundTo job.idempotencyKeyHash with
    | some bound =>
      match d.jobs.get? bound with
      | none => .error (.runtimeError "job idempotency registry is inconsistent")
      | some existing =>
        if existing.requestFingerprint ≠ job.requestFingerprint then
          .error (.jobConflict keyConflictMessage)
        else .ok ((existing, false, []), d)
    | none => do
        let recovery := d.factoryFence ≠ "" &&
          ((d.jobs.get? d.factoryFence).any Job.recoverable && job.freshFactoryReset env.nowMs)
        if d.factoryFence ≠ "" ∧ recovery = false then
          .error (.jobCapacity factoryFenceMessage)
        else
          let (d, pruned) ← pruneTerminal d.jobs.size d
          let expired := expiredAtCreate d
          let d := expireArtifacts d expired
          if maxRegistryParamBytes < d.jobs.total activeParamSize + jsonSize job.params then
            .error (.jobCapacity paramCapacityMessage)
          else
            .ok ((job, true, pruned ++ expired.filterMap Job.artifact),
              { (d.write job.jobId job) with
                idempotency := d.idempotency.set job.idempotencyKeyHash job.jobId
                factoryFence := if recovery then job.jobId else d.factoryFence })

def claimCandidates (d : Registry) (nowMs : Nat) : List Job :=
  d.jobs.values.filter fun job =>
    (d.factoryFence = "" || job.jobId = d.factoryFence) && job.claimable nowMs

/-- The read-only hint an idle worker takes before the compare-and-set: it grants
nothing. -/
def claimHint (nowMs : Nat) (snapshot fenceDoc : Registry) : Bool :=
  snapshot.jobs.values.any fun job =>
    (fenceDoc.factoryFence = "" || job.jobId = fenceDoc.factoryFence) && job.claimable nowMs

def claimNext (d : Registry) (env : Env) (owner : String) (leaseMillis : Nat) :
    Except JobError (Option (Job × String) × Registry) :=
  mutate d fun d =>
    match firstMin createdKey (claimCandidates d env.nowMs) with
    | none => .ok (none, d)
    | some job =>
      let job := job.claim env owner leaseMillis
      .ok (some (job, env.uuid), d.write job.jobId job)

def releaseClaim (d : Registry) (jobId token : String) : Except JobError (Job × Registry) :=
  ownedUpdate d jobId token fun job => .ok (job.releaseClaim, job.releaseClaim)

def renew (d : Registry) (env : Env) (jobId token : String) (leaseMillis : Nat) :
    Except JobError (Job × Registry) :=
  ownedUpdate d jobId token fun job => .ok (job.renew env leaseMillis, job.renew env leaseMillis)

def beginItem (d : Registry) (jobId token itemRef : String) : Except JobError (Job × Registry) :=
  ownedUpdate d jobId token fun job => .ok (job.beginItem itemRef, job.beginItem itemRef)

def ensureItems (d : Registry) (jobId token : String) (itemRefs : List String) (unit : String) :
    Except JobError (Job × Registry) :=
  ownedUpdate d jobId token fun job =>
    .ok (job.ensureItems itemRefs unit, job.ensureItems itemRefs unit)

def setProgress (d : Registry) (jobId token : String) (done total : Int) (unit : String) :
    Except JobError (Job × Registry) :=
  ownedUpdate d jobId token fun job =>
    .ok (job.setProgress done total unit, job.setProgress done total unit)

def completeItem (d : Registry) (jobId token itemRef : String) (error : Option String) :
    Except JobError (Job × Registry) :=
  ownedUpdate d jobId token fun job =>
    .ok (job.completeItem itemRef error, job.completeItem itemRef error)

/-! ### Ending and leaving -/

def requestCancel (d : Registry) (env : Env) (jobId actor : String)
    (generation : Option String) : Except JobError (Option Job × Registry) :=
  mutate d fun d =>
    match d.jobs.get? jobId with
    | none => .ok (none, d)
    | some job =>
      if job.heldBy env actor generation = false then .ok (none, d)
      else if job.status.terminal then .ok (some job, d)
      else do
        let job ← job.requestCancel env
        return (some job, d.write jobId job)

def notTerminalMessage : String := "finish requires a terminal status"

def finish (d : Registry) (env : Env) (jobId token : String) (status : JobStatus)
    (result : Option JobResult) (jobError : Option String) : Except JobError (Job × Registry) :=
  if status.terminal = false then .error (.valueError notTerminalMessage)
  else
    ownedUpdate d jobId token fun job => do
      let job ← job.finish env status result jobError
      return (job, job)

def Job.ofAccount (j : Job) (env : Env) (actor generation : String) : Bool :=
  env.lower j.actor = env.lower (strip actor) && j.actorGeneration = generation

/-- One row of `retire_actor`'s pass over the registry. -/
def retireRow (env : Env) (actor generation : String)
    (acc : Registry × List JobArtifact × Nat) (entry : String × Job) :
    Registry × List JobArtifact × Nat :=
  let (d, artifacts, removed) := acc
  let (jobId, job) := entry
  if job.ofAccount env actor generation = false then (d, artifacts, removed)
  else if job.status = .running then (d.write jobId job.retire, artifacts, removed)
  else (d.drop jobId job, artifacts ++ job.artifact.toList, removed + 1)

def retireActor (d : Registry) (env : Env) (actor generation : String) :
    Except JobError ((List JobArtifact × Nat) × Registry) :=
  mutate d fun d =>
    let (d', artifacts, removed) := d.jobs.entries.foldl (retireRow env actor generation) (d, [], 0)
    .ok ((artifacts, removed), d')

def Job.purgeable (j : Job) : Bool :=
  j.retired && j.status.terminal && j.transitions.all JobTransition.audited

def purgeRetiredTerminal (d : Registry) (jobId : String) :
    Except JobError (List JobArtifact × Registry) :=
  mutate d fun d =>
    match d.jobs.get? jobId with
    | none => .ok ([], d)
    | some job =>
      if job.purgeable then .ok (job.artifact.toList, d.drop jobId job) else .ok ([], d)

def setInboxSynced (d : Registry) (jobId : String) (synced : Bool) :
    Except JobError (Option Job × Registry) :=
  rowUpdate d jobId fun job => .ok (job.setInboxSynced synced)

def markTransitionAudited (d : Registry) (jobId : String) (seq : Nat) :
    Except JobError (Option Job × Registry) :=
  rowUpdate d jobId fun job => .ok (job.markTransitionAudited seq)

def markAllTransitionsUnaudited (d : Registry) (jobId : Option String) :
    Except JobError (Option Job × Registry) :=
  mutate d fun d =>
    let jobs := d.jobs.mapValues fun key job =>
      if jobId.all (key = ·) then job.markTransitionsUnaudited else job
    .ok (jobId.bind fun id => if id = "" then none else jobs.get? id, { d with jobs := jobs })

def reserveArtifact (d : Registry) (env : Env) (jobId token suffix : String) :
    Except JobError ((Job × Option String) × Registry) :=
  if suffix ≠ ".zip" then .error (.valueError "unsupported artifact suffix")
  else
    ownedUpdate d jobId token fun job =>
      let job := job.reserveArtifact env suffix
      .ok ((job, job.pendingArtifactId), job)

def clearPendingArtifact (d : Registry) (jobId token artifactId : String) :
    Except JobError (Job × Registry) :=
  ownedUpdate d jobId token fun job =>
    .ok (job.clearPendingArtifact artifactId, job.clearPendingArtifact artifactId)

/-- The rows that lose their artifact when one more is attached to `jobId`. -/
def expiredAtAttach (d : Registry) (jobId : String) : List Job :=
  (newestFirst (d.jobs.values.filter fun j => j.artifact.isSome && j.jobId ≠ jobId)).drop
    (maxRetainedArtifacts - 1)

def replacedArtifact (job : Job) (artifact : JobArtifact) : List JobArtifact :=
  job.artifact.toList.filter fun previous => previous.artifactId ≠ artifact.artifactId

def attachArtifact (d : Registry) (jobId token : String) (artifact : JobArtifact) :
    Except JobError ((Job × List JobArtifact) × Registry) :=
  mutate d fun d => do
    let job ← d.owned jobId token
    if job.pendingArtifactId ≠ some artifact.artifactId then
      .error (.runtimeError "artifact identity was not reserved by this job")
    else
      let attached := job.attachArtifact artifact
      let d := d.write jobId attached
      let expired := expiredAtAttach d jobId
      return ((attached, replacedArtifact job artifact ++ expired.filterMap Job.artifact),
        expireArtifacts d expired)

def expireArtifact (d : Registry) (jobId artifactId : String) :
    Except JobError (Option Job × Registry) :=
  rowUpdate d jobId fun job =>
    .ok (if job.artifact.any (·.artifactId = artifactId) then job.expireArtifact else job)

/-! ### The factory fence -/

def otherFenceMessage : String := "another factory reset owns the job registry fence"

/-- One row of `begin_factory_fence`'s pass: every other row that has not ended is
asked to stop, and a queued one is cancelled. -/
def fenceRow (env : Env) (jobId : String) (acc : Registry × List JobArtifact)
    (entry : String × Job) : Except JobError (Registry × List JobArtifact) := do
  let (d, artifacts) := acc
  let (otherId, other) := entry
  if otherId = jobId ∨ other.status.terminal = true then .ok (d, artifacts)
  else
    let stopped ← other.stopForFence env
    let freed := if other.status = .queued then stopped.artifact.toList else []
    return (d.write otherId stopped, artifacts ++ freed)

def beginFactoryFence (d : Registry) (env : Env) (jobId token : String) :
    Except JobError ((Job × List JobArtifact) × Registry) :=
  mutate d fun d => do
    let current ← d.owned jobId token
    if d.factoryFence ≠ "" ∧ d.factoryFence ≠ jobId then
      .error (.runtimeError otherFenceMessage)
    else
      let (d', artifacts) ← d.jobs.entries.foldlM (fenceRow env jobId) (d, [])
      return ((current, artifacts), { d' with factoryFence := jobId })

def releaseFactoryFence (d : Registry) (jobId : String) : Except JobError (Unit × Registry) :=
  mutate d fun d =>
    .ok ((), { d with factoryFence := if d.factoryFence = jobId then "" else d.factoryFence })

def fenceChangedMessage : String := "factory reset fence ownership changed"

def factoryCompact (d : Registry) (env : Env) (jobId token : String) (status : JobStatus)
    (result : JobResult) (appVersion buildSha : String) :
    Except JobError ((Job × List JobArtifact) × Registry) :=
  if status.terminal = false then .error (.valueError "factory receipt must be terminal")
  else
    mutate d fun d => do
      let current ← d.owned jobId token
      if d.factoryFence ≠ jobId then .error (.runtimeError fenceChangedMessage)
      else
        let receipt := current.factoryReceipt env status result appVersion buildSha
        return ((receipt, d.jobs.values.filterMap Job.artifact),
          { jobs := Dict.empty.set receipt.jobId receipt
            idempotency := .empty
            factoryFence := jobId })

/-! ### Queries

Two of them read the document twice: the rows first, the fence after. -/

def Job.sanitizedReceipt (j : Job) : Bool :=
  j.kind = .tieredReset && j.actor = "" && j.requestFingerprint = "" &&
    j.idempotencyKeyHash = "" && j.hasReceiptParams

/-- The rows a projection may offer under the fence of `fenceDoc`. -/
def offered (snapshot fenceDoc : Registry) : List Job :=
  snapshot.jobs.values.filter fun job =>
    fenceDoc.factoryFence = "" || job.jobId = fenceDoc.factoryFence

def unsyncedJobs (snapshot fenceDoc : Registry) : List Job :=
  (offered snapshot fenceDoc).filter fun job => !job.inboxSynced && !job.sanitizedReceipt

def unauditedTransitions (snapshot fenceDoc : Registry) : List (Job × JobTransition) :=
  (offered snapshot fenceDoc).flatMap fun job =>
    (job.transitions.filter fun t => !t.audited).map fun t => (job, t)

def factoryQuiescent (d : Registry) (jobId token : String) : Except JobError Bool := do
  let _ ← d.owned jobId token
  return !(d.jobs.values.any fun other => other.jobId ≠ jobId && other.status = .running)

/-! ### Submission -/

def textItems : Json → List String
  | .arr xs => xs.filterMap fun x => match x with
    | .str s => some s
    | _ => none
  | _ => []

def fixtureIds (params : Dict String Json) : List String :=
  textItems (getOr params "fixture_ids" .null)

/-- `_items`: the item references of a job and the unit of its progress.  The scopes
of an export are those `_select_scopes` has already put back into the parameters. -/
def itemRefs (kind : JobKind) (params : Dict String Json) : List String × String :=
  match params.get? "case_ids" with
  | some ids => (textItems ids, "cases")
  | none =>
    match kind with
    | .ragImport => match params.get? "documents" with
      | some (.arr xs) => ((List.range xs.length).map toString, "documents")
      | _ => ([], "documents")
    | .dataExportArchive | .dataExportSegment => (textItems (getOr params "scopes" .null), "scopes")
    | .precedentBootstrap =>
      (if (getOr params "dry_run" .null).truthy then ["bootstrap"] else [], "cases")
    | .ragRebuild => (["rebuild"], "items")
    | .replayExperiment => (fixtureIds params, "replay fixtures")
    | .runbookReindex => (["reindex"], "items")
    | .tieredReset => (["reset"], "items")
    | _ => (["apply"], "items")

/-- `_grants`; the grant a lifecycle action needs is resolved by its own table. -/
def grants (kind : JobKind) (lifecycleAction : String) : List JobPermission :=
  match kind with
  | .caseReinvestigate => [⟨"cases", "reinvestigate"⟩]
  | .caseAssign => [⟨"cases", "assign"⟩]
  | .caseTag => [⟨"cases", "write"⟩]
  | .caseLifecycle => [⟨"cases", lifecycleAction⟩]
  | .dataExportArchive | .dataExportSegment => [⟨"data_export", "export"⟩]
  | .precedentBootstrap => [⟨"rag", "manage"⟩, ⟨"cases", "write"⟩]
  | .runbookReindex => [⟨"runbooks", "manage"⟩]
  | .ragImport | .ragRebuild => [⟨"rag", "manage"⟩]
  | .tieredReset => [⟨"users", "manage"⟩]
  | .replayExperiment => [⟨"models", "manage"⟩, ⟨"cases", "read"⟩]
  | .storageLifecycleApply => [⟨"settings", "manage"⟩]

inductive ResetScope where
  | cases
  | sources
  | factory
deriving DecidableEq, Repr

def ResetScope.value : ResetScope → String
  | .cases => "cases"
  | .sources => "sources"
  | .factory => "factory"

def ResetScope.phrase : ResetScope → String
  | .cases => "RESET CASES"
  | .sources => "RESET SOURCES"
  | .factory => "FACTORY RESET"

def ResetScope.params (scope : ResetScope) : Dict String Json :=
  ⟨[("scope", .str scope.value), ("confirm", .str scope.phrase)], by simp⟩

structure Submission where
  jobId : String
  kind : JobKind
  actor : String
  actorGeneration : String
  createdAt : String
  requestFingerprint : String
  idempotencyKeyHash : String
  params : Dict String Json
  lifecycleAction : String
  freshAuthorizedUntilMillis : Nat
  freshSessionId : Option String
  freshTokenVersion : Option Nat

/-- The job `submit_job` builds. -/
def Submission.job (s : Submission) : Job :=
  let items := itemRefs s.kind s.params
  let states : Dict String ItemState := .ofList (items.1.map fun ref => (ref, .pending))
  { jobId := s.jobId
    kind := s.kind
    actor := s.actor
    actorGeneration := s.actorGeneration
    createdAt := s.createdAt
    startedAt := none
    finishedAt := none
    status := .queued
    progress := ⟨0, states.size, items.2⟩
    failures := []
    failureCount := 0
    failuresTruncated := 0
    requestFingerprint := s.requestFingerprint
    idempotencyKeyHash := s.idempotencyKeyHash
    result := none
    params := s.params
    requiredPermissions := grants s.kind s.lifecycleAction
    freshAuthorizedUntilMillis := s.freshAuthorizedUntilMillis
    freshSessionId := s.freshSessionId
    freshTokenVersion := s.freshTokenVersion
    cancelRequested := false
    itemStates := states
    leaseOwner := none
    leaseToken := none
    leaseExpiresAtMillis := 0
    transitionSeq := 1
    transitions := [⟨1, "submitted", "validated and queued", false⟩]
    artifact := none
    pendingArtifactId := none
    pendingArtifactSuffix := none
    inboxSynced := false
    retired := false
    appVersion := none
    buildSha := none }

/-- The parameters passed the parameter model of their kind.  Those of the other kinds are not
restated, nothing below reads their parameters. -/
def Submission.paramsChecked (s : Submission) : Bool :=
  match s.kind with
  | .tieredReset => s.params = ResetScope.cases.params || s.params = ResetScope.sources.params ||
      s.params = ResetScope.factory.params
  | .storageLifecycleApply => (s.params.get? "case_ids").isNone
  | .replayExperiment => (s.params.get? "case_ids").isNone && (fixtureIds s.params).Nodup
  | _ => true

/-- What holds of every request that reaches the store: both digests are SHA-256, the
record model accepted the job, and the parameters were checked. -/
def Submission.accepted (s : Submission) : Bool :=
  s.jobId ≠ "" && isSha256 s.requestFingerprint && isSha256 s.idempotencyKeyHash &&
    s.job.headerValidates && s.paramsChecked

inductive Op where
  | create (s : Submission)
  | claimNext (owner : String) (leaseMillis : Nat)
  | releaseClaim (jobId token : String)
  | renew (jobId token : String) (leaseMillis : Nat)
  | beginItem (jobId token itemRef : String)
  | ensureItems (jobId token : String) (itemRefs : List String) (unit : String)
  | setProgress (jobId token : String) (done total : Int) (unit : String)
  | completeItem (jobId token itemRef : String) (error : Option String)
  | requestCancel (jobId actor : String) (generation : Option String)
  | retireActor (actor generation : String)
  | purgeRetiredTerminal (jobId : String)
  | setInboxSynced (jobId : String) (synced : Bool)
  | finish (jobId token : String) (status : JobStatus) (result : Option JobResult)
      (jobError : Option String)
  | reserveArtifact (jobId token suffix : String)
  | clearPendingArtifact (jobId token artifactId : String)
  | attachArtifact (jobId token : String) (artifact : JobArtifact)
  | expireArtifact (jobId artifactId : String)
  | markTransitionAudited (jobId : String) (seq : Nat)
  | markAllTransitionsUnaudited (jobId : Option String)
  | beginFactoryFence (jobId token : String)
  | releaseFactoryFence (jobId : String)
  | factoryCompact (jobId token : String) (status : JobStatus) (result : JobResult)
      (appVersion buildSha : String)

inductive Val where
  | created (job : Job) (isNew : Bool) (pruned : List JobArtifact)
  | claimed (claim : Option (Job × String))
  | job (job : Job)
  | found (job : Option Job)
  | retired (artifacts : List JobArtifact) (removed : Nat)
  | freed (artifacts : List JobArtifact)
  | reserved (job : Job) (artifactId : Option String)
  | attached (job : Job) (expired : List JobArtifact)
  | fenced (job : Job) (artifacts : List JobArtifact)
  | compacted (receipt : Job) (artifacts : List JobArtifact)
  | done

def tag {α : Type} (f : α → Val) : Except JobError (α × Registry) → Except JobError (Val × Registry)
  | .ok (a, d) => .ok (f a, d)
  | .error e => .error e

def Op.run (op : Op) (env : Env) (d : Registry) : Except JobError (Val × Registry) :=
  match op with
  | .create s => tag (fun r => .created r.1 r.2.1 r.2.2) (Jobs.create d env s.job)
  | .claimNext owner leaseMillis => tag .claimed (Jobs.claimNext d env owner leaseMillis)
  | .releaseClaim jobId token => tag .job (Jobs.releaseClaim d jobId token)
  | .renew jobId token leaseMillis => tag .job (Jobs.renew d env jobId token leaseMillis)
  | .beginItem jobId token itemRef => tag .job (Jobs.beginItem d jobId token itemRef)
  | .ensureItems jobId token itemRefs unit =>
    tag .job (Jobs.ensureItems d jobId token itemRefs unit)
  | .setProgress jobId token done total unit =>
    tag .job (Jobs.setProgress d jobId token done total unit)
  | .completeItem jobId token itemRef error =>
    tag .job (Jobs.completeItem d jobId token itemRef error)
  | .requestCancel jobId actor generation =>
    tag .found (Jobs.requestCancel d env jobId actor generation)
  | .retireActor actor generation =>
    tag (fun r => .retired r.1 r.2) (Jobs.retireActor d env actor generation)
  | .purgeRetiredTerminal jobId => tag .freed (Jobs.purgeRetiredTerminal d jobId)
  | .setInboxSynced jobId synced => tag .found (Jobs.setInboxSynced d jobId synced)
  | .finish jobId token status result jobError =>
    tag .job (Jobs.finish d env jobId token status result jobError)
  | .reserveArtifact jobId token suffix =>
    tag (fun r => .reserved r.1 r.2) (Jobs.reserveArtifact d env jobId token suffix)
  | .clearPendingArtifact jobId token artifactId =>
    tag .job (Jobs.clearPendingArtifact d jobId token artifactId)
  | .attachArtifact jobId token artifact =>
    tag (fun r => .attached r.1 r.2) (Jobs.attachArtifact d jobId token artifact)
  | .expireArtifact jobId artifactId => tag .found (Jobs.expireArtifact d jobId artifactId)
  | .markTransitionAudited jobId seq =>
    tag (fun _ => .done) (Jobs.markTransitionAudited d jobId seq)
  | .markAllTransitionsUnaudited jobId =>
    tag .found (Jobs.markAllTransitionsUnaudited d jobId)
  | .beginFactoryFence jobId token =>
    tag (fun r => .fenced r.1 r.2) (Jobs.beginFactoryFence d env jobId token)
  | .releaseFactoryFence jobId => tag (fun _ => .done) (Jobs.releaseFactoryFence d jobId)
  | .factoryCompact jobId token status result appVersion buildSha =>
    tag (fun r => .compacted r.1 r.2)
      (Jobs.factoryCompact d env jobId token status result appVersion buildSha)

def Op.lease : Op → Option (String × String)
  | .releaseClaim jobId token | .renew jobId token _ | .beginItem jobId token _
  | .ensureItems jobId token _ _ | .setProgress jobId token _ _ _
  | .completeItem jobId token _ _ | .finish jobId token _ _ _ | .reserveArtifact jobId token _
  | .clearPendingArtifact jobId token _ | .attachArtifact jobId token _
  | .beginFactoryFence jobId token | .factoryCompact jobId token _ _ _ _ => some (jobId, token)
  | _ => none

/-! ### The shared document -/

structure Document where
  registry : Registry
  issued : List String

def Op.draws (op : Op) (env : Env) : List String :=
  match op with
  | .create s => [s.jobId]
  | .claimNext _ _ | .reserveArtifact _ _ _ => [env.uuid]
  | _ => []

/-- What the callers and the interpreter guarantee about an attempt: a drawn
identifier is fresh, and records built by their models satisfy them. -/
def Op.admissible (op : Op) (env : Env) (doc : Document) : Bool :=
  (op.draws env).all (fun id => id ∉ doc.issued && id ≠ "") &&
    match op with
    | .create s => s.accepted
    | .claimNext owner _ => lengthWithin 0 160 owner && lengthWithin 1 120 env.uuid
    | .reserveArtifact _ _ _ => lengthWithin 1 120 env.uuid
    | .finish _ _ _ result _ => result.all JobResult.validates
    | .attachArtifact _ _ artifact => artifact.validates
    | .factoryCompact _ _ _ result _ _ => result.validates
    | _ => true

def Op.change (op : Op) (env : Env) (doc : Document) : Except JobError (Val × Document) :=
  match op.run env doc.registry with
  | .ok (val, registry) => .ok (val, ⟨registry, doc.issued ++ op.draws env⟩)
  | .error e => .error e

/-- The reads that take the rows and the fence from two reads of the document. -/
inductive Query where
  | claimHint (nowMs : Nat)
  | unsyncedJobs
  | unauditedTransitions

inductive Answer where
  | hint (claimable : Bool)
  | unsynced (rows : List Job)
  | unaudited (rows : List (Job × JobTransition))

def Query.answer (q : Query) (snapshot fenceDoc : Document) : Answer :=
  match q with
  | .claimHint nowMs => .hint (Jobs.claimHint nowMs snapshot.registry fenceDoc.registry)
  | .unsyncedJobs => .unsynced (Jobs.unsyncedJobs snapshot.registry fenceDoc.registry)
  | .unauditedTransitions =>
    .unaudited (Jobs.unauditedTransitions snapshot.registry fenceDoc.registry)

def emptyDocument : Document := ⟨.fresh, []⟩

/-- `kv_mutate_strict` over the registry key: eight attempts a call. -/
@[reducible] def registryInterface : CasCell.Interface where
  Doc := Document
  Op := Op
  Env := Env
  Val := Val
  Err := JobError
  Query := Query
  Answer := Answer
  init := emptyDocument
  attempts := 8
  admissible := Op.admissible
  change := Op.change
  answer := Query.answer

abbrev registryCell := CasCell.cell registryInterface

abbrev registryMachine := CasCell.atomic registryInterface

def quietCell : CasCell.State registryInterface := ⟨emptyDocument, 0, fun _ => .idle⟩

def sampleDigest (c : Char) : String := String.ofList (List.replicate 64 c)

/-- A request of `alice`, whose step-up authorisation lasts until `1000000`. -/
def sampleSubmission (jobId : String) (kind : JobKind) (params : Dict String Json)
    (createdAt : String) (digest : Char) : Submission where
  jobId := jobId
  kind := kind
  actor := "alice"
  actorGeneration := "g1"
  createdAt := createdAt
  requestFingerprint := sampleDigest digest
  idempotencyKeyHash := sampleDigest digest
  params := params
  lifecycleAction := "write"
  freshAuthorizedUntilMillis := 1000000
  freshSessionId := some "s1"
  freshTokenVersion := some 1

def sampleReset (jobId createdAt : String) (digest : Char) : Submission :=
  sampleSubmission jobId .tieredReset ResetScope.factory.params createdAt digest

def sampleExport (jobId createdAt : String) (digest : Char) : Submission :=
  sampleSubmission jobId .dataExportArchive (.ofList [("scopes", .arr [.str "cases"])]) createdAt
    digest

/-- An attempt at `nowMs` that draws `uuid`; the names of the sample are lower case. -/
def sampleEnv (nowMs : Nat) (uuid : String) : Env where
  nowMs := nowMs
  isoNow := fun _ => "2026-01-02T00:00:00Z"
  uuid := uuid
  lower := fun s => s

end AgenticKibana.Jobs
