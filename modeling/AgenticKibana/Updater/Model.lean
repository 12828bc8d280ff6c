import AgenticKibana.Library.Dict
import AgenticKibana.Library.Threads

/-!
# The update supervisor: its records and the actions its code is made of

The durable state of `UpdateService` is the ledger of `JsonStore` (one file a job, the idempotency
index and the preflight records) and the host lifecycle marker; its volatile state is the store
lock, the hold on the lifecycle guard and the registry of worker threads.  An action (`Act`) is
one of the calls the service makes on them, or one call of the host runtime, whose outcome the
environment decides (`Answer`).  `history` records what was called, written and answered.
-/

namespace AgenticKibana.Updater

open AgenticKibana.Library

/-! ### Records -/

/-- The UUID of `update-<uuid>`. -/
abbrev JobId := Nat

/-- An instant; the timestamps of the records are compared, never read back. -/
abbrev Time := Nat

abbrev Key := String
abbrev Token := String

inductive Status where
  | queued | running | rollingBack | succeeded | failed | rolledBack | cancelled
deriving DecidableEq, Repr

/-- `ACTIVE_STATUSES`. -/
def Status.active : Status → Bool
  | .queued | .running | .rollingBack => true
  | _ => false

/-- `TERMINAL_STATUSES`. -/
def Status.terminal : Status → Bool
  | .succeeded | .failed | .rolledBack | .cancelled => true
  | _ => false

inductive Stage where
  | validating | verifyingArtifacts | pullingImages | quiescing | backingUp
  | updatingBackend | verifyingBackend | updatingWebui | verifyingWebui | observing
  | completed | rollingBack | restoringRelease
deriving DecidableEq, Repr

/-- `STAGE_PROGRESS`. -/
def Stage.progress : Stage → Nat
  | .validating => 0
  | .verifyingArtifacts => 5
  | .pullingImages => 14
  | .quiescing => 22
  | .backingUp => 30
  | .updatingBackend => 48
  | .verifyingBackend => 62
  | .updatingWebui => 72
  | .verifyingWebui => 82
  | .observing => 92
  | .completed => 100
  | .rollingBack => 94
  | .restoringRelease => 96

/-- The stages `_worker` resumes at without starting over. -/
def Stage.afterHandoff : Stage → Bool
  | .quiescing | .backingUp | .updatingBackend | .verifyingBackend | .updatingWebui
  | .verifyingWebui | .observing => true
  | _ => false

/-- A release as `validate_release_request` normalises it. -/
structure Release where
  releaseId : String
  version : String
  tag : String
  commitSha : String
  planUrl : String
  bundleUrl : String
  repository : String
deriving DecidableEq, Inhabited, Repr

structure Plan where
  version : String
  commitSha : String
  stateSchema : String
deriving DecidableEq, Inhabited, Repr

/-- `installed_identity`. -/
structure Identity where
  version : String
  channel : String
  commitSha : String
  stateSchema : String
  backendImageId : String
  webuiImageId : String
deriving DecidableEq, Inhabited, Repr

/-- `deployment_fingerprint`. -/
structure Fingerprint where
  identity : Identity
  updaterImageId : String
  composeSha256 : String
  environmentSha256 : String
deriving DecidableEq, Inhabited, Repr

/-- `capture_snapshot`: what the images were before the update. -/
structure Snapshot where
  fingerprint : Fingerprint
  capturedAt : Time
  jobId : JobId
deriving DecidableEq, Inhabited, Repr

/-- What `backup_postgres` returns. -/
structure Dump where
  path : String
  sha256 : String
  bytes : Nat
  database : String
  user : String
  verified : Bool
deriving DecidableEq, Inhabited, Repr

structure Backup where
  dump : Dump
  writerQuiesced : Bool
  quiescedAt : Time
deriving DecidableEq, Repr

inductive Binding where
  | cancel (job : JobId)
  | rollback (job : JobId)
deriving DecidableEq, Repr

structure Receipt where
  jobId : JobId
  releaseId : String
  status : Status
  before : String × String
  after : String × String
  components : List String
  backupId : Option JobId
  rollbackPerformed : Bool
  startedAt : Time
  completedAt : Time
deriving DecidableEq, Repr

structure RollbackState where
  automatic : Bool
  supported : Bool
  state : String
  description : String
deriving DecidableEq, Repr

structure JobError where
  code : String
  message : String
  remediation : String
deriving DecidableEq, Repr

/-- A job record.  A flag that is only ever set is absent while it is `false`; the other
fields a record may lack are options. -/
structure Job where
  jobId : JobId
  release : Release
  status : Status
  stage : Stage
  progress : Nat
  message : String
  startedAt : Time
  updatedAt : Time
  cancelRequested : Bool
  switchStarted : Bool
  plan : Option Plan
  startIdempotencyKey : Option Key
  operationIdempotency : Dict Key Binding
  snapshot : Option Snapshot
  overrideStarted : Bool
  overrideWritten : Bool
  handoffAttempts : Nat
  handoffComplete : Bool
  quiesceStarted : Bool
  quiesced : Bool
  quiescedAt : Option Time
  backup : Option Backup
  overrideActivationStarted : Bool
  overrideActivated : Bool
  installedTarget : Option Identity
  receipt : Option Receipt
  rollbackReceipt : Option Receipt
  rollback : Option RollbackState
  rollbackRestoreDatabase : Option Bool
  rollbackAutomatic : Option Bool
  rollbackOperatorRequested : Option Bool
  rollbackTerminalStatus : Option Status
  rollbackAuthorizedIdentity : Option Identity
  error : Option JobError

/-- The record `start` writes. -/
def Job.queued (id : JobId) (release : Release) (plan : Option Plan) (key : Key)
    (startedAt updatedAt : Time) : Job where
  jobId := id
  release := release
  status := .queued
  stage := .validating
  progress := 0
  message := "Update queued"
  startedAt := startedAt
  updatedAt := updatedAt
  cancelRequested := false
  switchStarted := false
  plan := plan
  startIdempotencyKey := some key
  operationIdempotency := Dict.empty
  snapshot := none
  overrideStarted := false
  overrideWritten := false
  handoffAttempts := 0
  handoffComplete := false
  quiesceStarted := false
  quiesced := false
  quiescedAt := none
  backup := none
  overrideActivationStarted := false
  overrideActivated := false
  installedTarget := none
  receipt := none
  rollbackReceipt := none
  rollback := none
  rollbackRestoreDatabase := none
  rollbackAutomatic := none
  rollbackOperatorRequested := none
  rollbackTerminalStatus := none
  rollbackAuthorizedIdentity := none
  error := none

instance : Inhabited Job := ⟨Job.queued 0 default none "" 0 0⟩

/-- `job.update(current)`: what `current` lacks is kept. -/
def Job.update (job current : Job) : Job :=
  { current with
    plan := current.plan <|> job.plan
    startIdempotencyKey := current.startIdempotencyKey <|> job.startIdempotencyKey
    operationIdempotency :=
      if current.operationIdempotency = Dict.empty then job.operationIdempotency
      else current.operationIdempotency
    snapshot := current.snapshot <|> job.snapshot
    overrideStarted := current.overrideStarted || job.overrideStarted
    overrideWritten := current.overrideWritten || job.overrideWritten
    handoffAttempts := if current.handoffAttempts = 0 then job.handoffAttempts
      else current.handoffAttempts
    handoffComplete := current.handoffComplete || job.handoffComplete
    quiesceStarted := current.quiesceStarted || job.quiesceStarted
    quiesced := current.quiesced || job.quiesced
    quiescedAt := current.quiescedAt <|> job.quiescedAt
    backup := current.backup <|> job.backup
    overrideActivationStarted :=
      current.overrideActivationStarted || job.overrideActivationStarted
    overrideActivated := current.overrideActivated || job.overrideActivated
    installedTarget := current.installedTarget <|> job.installedTarget
    receipt := current.receipt <|> job.receipt
    rollbackReceipt := current.rollbackReceipt <|> job.rollbackReceipt
    rollback := current.rollback <|> job.rollback
    rollbackRestoreDatabase := current.rollbackRestoreDatabase <|> job.rollbackRestoreDatabase
    rollbackAutomatic := current.rollbackAutomatic <|> job.rollbackAutomatic
    rollbackOperatorRequested :=
      current.rollbackOperatorRequested <|> job.rollbackOperatorRequested
    rollbackTerminalStatus := current.rollbackTerminalStatus <|> job.rollbackTerminalStatus
    rollbackAuthorizedIdentity :=
      current.rollbackAuthorizedIdentity <|> job.rollbackAuthorizedIdentity
    error := current.error <|> job.error }

/-- What `start` reads of a preflight record: `response` is whether the stored response
has blockers, absent while the preflight runs; `expiresAt` is `none` when the stored
text is no timestamp. -/
structure Preflight where
  idempotencyKey : Key
  release : Release
  expiresAt : Option Time
  response : Option Bool
  plan : Option Plan
deriving DecidableEq

/-- `idempotency.json`: the keys `preflight:<key>`, `job:<key>` and `operation:<key>`. -/
structure Index where
  preflights : Dict Key Token
  jobs : Dict Key JobId
  operations : Dict Key Binding
deriving DecidableEq

def Index.empty : Index := ⟨Dict.empty, Dict.empty, Dict.empty⟩

inductive Failure where
  | service (message : String) (status : Nat)
  | runtime (message : String)
deriving DecidableEq, Repr

def Failure.message : Failure → String
  | .service m _ => m
  | .runtime m => m

/-- The text of `str(exc)[:500]`. -/
def Failure.text (e : Failure) : String := (e.message.take 500).toString

inductive HostCall where
  | loadVerifiedPlan (release : Release)
  | preflight (plan : Plan)
  | deploymentFingerprint
  | pullAndValidate (plan : Plan)
  | captureSnapshot (job : JobId)
  | prepareTargetOverride (plan : Plan)
  | updaterHandoffRequired (plan : Plan)
  | handoffUpdater
  | quiesceBackend
  | backupPostgres (job : JobId)
  | activateTargetOverride (plan : Plan)
  | switchBackend
  | verifyBackend (plan : Plan)
  | switchWebui
  | verifyWebui (plan : Plan)
  | observe (plan : Plan)
  | installedIdentity
  | rollback (snapshot : Snapshot) (backup : Option Backup) (restoreDatabase : Bool)
deriving DecidableEq, Repr

/-- What a host call returns; `preflight` returns the codes of its blockers. -/
def HostCall.Value : HostCall → Type
  | .loadVerifiedPlan _ => Plan
  | .preflight _ => List String
  | .deploymentFingerprint => Fingerprint
  | .captureSnapshot _ => Snapshot
  | .updaterHandoffRequired _ => Bool
  | .backupPostgres _ => Dump
  | .installedIdentity => Identity
  | _ => Unit

def HostCall.switches : HostCall → Bool
  | .activateTargetOverride _ | .switchBackend | .switchWebui => true
  | _ => false

/-- What the environment answers: whether the call fails, and the values it returns. -/
structure Answer where
  fails : Bool
  plan : Plan
  blockers : List String
  fingerprint : Fingerprint
  handoff : Bool
  dump : Dump
  now : Time
  fresh : JobId
deriving Inhabited

def Answer.value (a : Answer) : (c : HostCall) → c.Value
  | .loadVerifiedPlan _ => a.plan
  | .preflight _ => a.blockers
  | .deploymentFingerprint => a.fingerprint
  | .captureSnapshot job => ⟨a.fingerprint, a.now, job⟩
  | .updaterHandoffRequired _ => a.handoff
  | .backupPostgres _ => a.dump
  | .installedIdentity => a.fingerprint.identity
  | .pullAndValidate _ | .prepareTargetOverride _ | .handoffUpdater | .quiesceBackend
  | .activateTargetOverride _ | .switchBackend | .verifyBackend _ | .switchWebui
  | .verifyWebui _ | .observe _ | .rollback _ _ _ => ()

structure Worker where
  thread : Nat
  rollbackOnly : Bool
deriving DecidableEq, Repr

structure StartRequest where
  release : Option Release
  token : Token
  key : Key
deriving DecidableEq

inductive Request where
  | start (body : StartRequest)
  | cancel (job : JobId) (key : Key)
  | rollback (job : JobId) (key : Key)
deriving DecidableEq

/-- What happened, by which thread: a host call and whether it succeeded, a refused
lifecycle guard, a written record with the one it replaced, a launch with the record it
found, an accepted request with the record it returned. -/
inductive Entry where
  | host (thread : Nat) (job : JobId) (call : HostCall) (ok : Bool)
  | refused (thread : Nat) (job : JobId)
  | saved (thread : Nat) (before : Option Job) (after : Job)
  | launched (job : JobId) (rollbackOnly : Bool) (record : Option Job)
  | accepted (request : Request) (record : Job)

def Entry.by : Entry → Option Nat
  | .host τ _ _ _ => some τ
  | .refused τ _ => some τ
  | .saved τ _ _ => some τ
  | .launched _ _ _ => none
  | .accepted _ _ => none

structure World where
  jobs : Dict JobId Job
  index : Index
  preflights : Dict Token Preflight
  /-- The host lifecycle marker. -/
  marker : Option JobId
  /-- Whether a supervisor process runs. -/
  up : Bool
  /-- The thread that holds the store lock. -/
  lock : Option Nat
  /-- `_lifecycle_job_id`. -/
  lifecycle : Option JobId
  workers : Dict JobId Worker
  /-- The identifier drawn in the running locked section. -/
  reserving : Option JobId
  history : List Entry

/-- `list_jobs`: newest update first. -/
def World.listJobs (s : World) : List Job :=
  s.jobs.values.insertionSort fun a b => b.updatedAt ≤ a.updatedAt

/-! ### Actions -/

/-- The calls the service's code makes, each of them atomic. -/
inductive Act where
  | lock
  | unlock
  | loadJob (id : JobId)
  | listJobs
  | saveJob (job : Job)
  | readIndex
  | saveIndex (index : Index)
  | loadPreflight (token : Token)
  | beginLifecycle (id : JobId)
  | releaseLifecycle (id : JobId) (terminal : Bool)
  | host (job : JobId) (call : HostCall)
  | launch (id : JobId) (rollbackOnly : Bool)
  | newId
  | now
  | fault

def Act.Reply : Act → Type
  | .loadJob _ => Option Job
  | .listJobs => List Job
  | .readIndex => Index
  | .loadPreflight _ => Option Preflight
  | .beginLifecycle _ => Except Failure Unit
  | .releaseLifecycle _ _ => Except Failure Unit
  | .host _ call => Except Failure call.Value
  | .newId => JobId
  | .now => Time
  | .fault => Bool
  | _ => Unit

def World.record (s : World) (e : Entry) : World := { s with history := s.history ++ [e] }

/-- `begin_lifecycle`; reading or writing the marker may fail. -/
def World.beginLifecycle (s : World) (id : JobId) (fails : Bool) : World × Except Failure Unit :=
  match s.lifecycle with
  | some job =>
    if job = id then (s, .ok ())
    else (s, .error (.runtime "another updater lifecycle guard is active"))
  | none =>
    if fails then (s, .error (.runtime "the host update lifecycle marker is unreadable"))
    else if s.marker.any (· ≠ id) then
      (s, .error (.runtime "another or unreconciled update lifecycle is active"))
    else ({ s with marker := some id, lifecycle := some id }, .ok ())

def World.releaseLifecycle (s : World) (id : JobId) (terminal : Bool) :
    World × Except Failure Unit :=
  match s.lifecycle with
  | none => (s, .ok ())
  | some job =>
    if job ≠ id then (s, .error (.runtime "lifecycle guard owner changed unexpectedly"))
    else if terminal then
      match s.marker with
      | none => (s, .error (.runtime "cannot safely clear the host update lifecycle marker"))
      | some marked =>
        if marked ≠ id then
          (s, .error (.runtime "host update lifecycle marker owner changed unexpectedly"))
        else ({ s with marker := none, lifecycle := none }, .ok ())
    else ({ s with lifecycle := none }, .ok ())

def World.saveJob (s : World) (thread : Nat) (job : Job) : World :=
  { s with
    jobs := s.jobs.set job.jobId job
    history := s.history ++ [.saved thread (s.jobs.get? job.jobId) job] }

/-- The registration of `_launch`, when no worker of the job is registered. -/
def World.register (s : World) (thread : Nat) (id : JobId) (rollbackOnly : Bool) : World :=
  { s with
    workers := s.workers.set id ⟨thread, rollbackOnly⟩
    history := s.history ++ [.launched id rollbackOnly (s.jobs.get? id)] }

inductive Name where
  | call (request : Request)
  | worker (job : JobId) (rollbackOnly : Bool)
deriving DecidableEq

/-- What an action does.  `_launch` waits for a worker of the other mode when a rollback is to be
started; a fresh identifier is one no job has. -/
def effect (τ fresh : Nat) (a : Act) (answer : Answer) (s : World) :
    Option (World × a.Reply × List Name) :=
  match a with
  | .lock => if s.lock = none then some ({ s with lock := some τ }, (), []) else none
  | .unlock => some ({ s with lock := none, reserving := none }, (), [])
  | .loadJob id => some (s, s.jobs.get? id, [])
  | .listJobs => some (s, s.listJobs, [])
  | .saveJob job => some (s.saveJob τ job, (), [])
  | .readIndex => some (s, s.index, [])
  | .saveIndex index => some ({ s with index := index }, (), [])
  | .loadPreflight token => some (s, s.preflights.get? token, [])
  | .beginLifecycle id =>
    match s.beginLifecycle id answer.fails with
    | (t, .ok ()) => some (t, .ok (), [])
    | (t, .error e) => some (t.record (.refused τ id), .error e, [])
  | .releaseLifecycle id terminal =>
    let (t, r) := s.releaseLifecycle id terminal
    some (t, r, [])
  | .host job call =>
    some (s.record (.host τ job call !answer.fails),
      (if answer.fails then .error (.runtime "host operation failed")
      else .ok (answer.value call)), [])
  | .launch id rollbackOnly =>
    match s.workers.get? id with
    | some worker =>
      if worker.rollbackOnly = rollbackOnly ∨ rollbackOnly = false then some (s, (), [])
      else none
    | none => some (s.register fresh id rollbackOnly, (), [.worker id rollbackOnly])
  | .newId =>
    if s.jobs.contains answer.fresh then none
    else some ({ s with reserving := some answer.fresh }, answer.fresh, [])
  | .now => some (s, answer.now, [])
  | .fault => some (s, answer.fails, [])

end AgenticKibana.Updater
