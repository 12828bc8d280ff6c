import AgenticKibana.Updater.Model

/-!
# The update supervisor: its code

`UpdateService` as routines over the actions of `AgenticKibana.Updater.Model`, in the
order the source writes them.  The worker keeps its in-memory copy of the record as a
local variable, with the thread-local flag `terminal_published`; both survive a raised
exception, as they do in the source.
-/

namespace AgenticKibana.Updater

open AgenticKibana.Library Routine

/-- Code of the service with local variables `L`. -/
abbrev Service (L α : Type) : Type := Routine Act.Reply Failure L α

/-- What a worker thread keeps: `job`, and whether it published a terminal record. -/
structure Local where
  job : Job
  published : Bool
deriving Inhabited

namespace Service

variable {L α : Type}

/-! ### The store and the host -/

def act (a : Act) : Service L a.Reply := perform a

def locked (m : Service L α) : Service L α := do
  act .lock
  andFinally m (act .unlock)

def loadJob (id : JobId) : Service L (Option Job) := act (.loadJob id)
def listJobs : Service L (List Job) := act .listJobs
def saveJob (job : Job) : Service L Unit := act (.saveJob job)
def readIndex : Service L Index := act .readIndex
def saveIndex (index : Index) : Service L Unit := act (.saveIndex index)
def loadPreflight (token : Token) : Service L (Option Preflight) := act (.loadPreflight token)
def launch (id : JobId) (rollbackOnly : Bool) : Service L Unit := act (.launch id rollbackOnly)
def nowIso : Service L Time := act .now

def beginLifecycle (id : JobId) : Service L Unit := do
  let r ← act (.beginLifecycle id)
  ofExcept r

def releaseLifecycle (id : JobId) (terminal : Bool) : Service L Unit := do
  let r ← act (.releaseLifecycle id terminal)
  ofExcept r

def host (id : JobId) (call : HostCall) : Service L call.Value := do
  let r ← act (.host id call)
  ofExcept r

def refuse (message : String) (status : Nat) : Service L α := raise (.service message status)

def sameInstalledIdentity (current expected : Identity) : Bool := decide (current = expected)

def raiseRuntimeBlockers (blockers : List String) (context : String) : Service L Unit :=
  when (!blockers.isEmpty) (raise (.runtime (context ++ ": " ++ String.intercalate ", " blockers)))

/-! ### Worker writes -/

def getJob : Service Local Job := do
  let l ← get
  pure l.job

def setJob (job : Job) : Service Local Unit := modify fun l => { l with job := job }

def modifyJob (f : Job → Job) : Service Local Unit := modify fun l => { l with job := f l.job }

/-- `current and current.get("cancel_requested")`, merged into the worker's copy. -/
def Merged (job : Job) (current : Option Job) : Job :=
  { job with cancelRequested :=
      job.cancelRequested || current.any fun current => current.cancelRequested }

/-- The locked part of `_save_worker_job`: load, merge the cancellation, write. -/
def mergeAndSave : Service Local Unit := do
  let job ← getJob
  let current ← loadJob job.jobId
  setJob (Merged job current)
  saveJob (Merged job current)

def saveWorkerJob : Service Local Unit := locked mergeAndSave

/-- What `_save_stage` changes in the record. -/
def Staged (job : Job) (stage : Stage) (message : String) (status : Status) (now : Time) : Job :=
  { job with
    status := status
    stage := stage
    progress := stage.progress
    message := message
    updatedAt := now }

/-- `_save_stage`: a terminal record and the removal of the lifecycle marker are one
locked section. -/
def saveStage (stage : Stage) (message : String) (status : Status) : Service Local Unit := do
  let now ← nowIso
  modifyJob fun job => Staged job stage message status now
  if status.terminal then
    locked do
      mergeAndSave
      let job ← getJob
      releaseLifecycle job.jobId true
      modify fun l => { l with published := true }
  else
    saveWorkerJob

/-- The `finally` of both workers. -/
def releaseUnlessPublished (id : JobId) : Service Local Unit := do
  let l ← get
  when (!l.published) do
    let current ← loadJob id
    releaseLifecycle id (current.any fun current => current.status.terminal)

/-! ### The rollback worker -/

/-- The `rollback` field after a completed rollback. -/
def restored (job : Job) : RollbackState where
  automatic := job.rollbackAutomatic.getD true
  supported := true
  state := "ready"
  description := "The exact prior backend/Web images were restored without discarding later PostgreSQL writes."

/-- `terminal_status` of a completed rollback. -/
def rollbackTerminal (job : Job) : Status :=
  match job.rollbackTerminalStatus with
  | some .cancelled => .cancelled
  | _ => .rolledBack

/-- Where the rollback started from: the authorized identity, else the installed target,
else the snapshot itself. -/
def rollbackOrigin (job : Job) (snapshot : Snapshot) : Identity :=
  match job.rollbackAuthorizedIdentity with
  | some identity => identity
  | none =>
    match job.installedTarget with
    | some identity => identity
    | none => snapshot.fingerprint.identity

/-- `rollback_receipt`. -/
def rollbackReceiptOf (job : Job) (snapshot : Snapshot) (now : Time) : Receipt where
  jobId := job.jobId
  releaseId := job.release.releaseId
  status := rollbackTerminal job
  before := ((rollbackOrigin job snapshot).version, (rollbackOrigin job snapshot).commitSha)
  after := (snapshot.fingerprint.identity.version, snapshot.fingerprint.identity.commitSha)
  components := ["backend", "webui", "help_center"]
  backupId := job.backup.map fun _ => job.jobId
  rollbackPerformed := true
  startedAt := job.startedAt
  completedAt := now

def RolledBack (job : Job) (snapshot : Snapshot) (now : Time) : Job :=
  if job.receipt.isSome then
    { job with
      rollback := some (restored job)
      rollbackReceipt := some (rollbackReceiptOf job snapshot now) }
  else
    { job with
      rollback := some (restored job)
      receipt := some (rollbackReceiptOf job snapshot now) }

def rollbackKind (job : Job) : String :=
  if job.rollbackAutomatic.getD true then "Automatic"
  else if job.rollbackOperatorRequested.getD false then "Operator-requested"
  else "Cancellation recovery"

def rollbackFailedMessage (job : Job) : String :=
  rollbackKind job ++ " rollback failed; manual recovery is required"

def RollbackFailed (job : Job) : Job :=
  { job with
    rollback := some
      { automatic := job.rollbackAutomatic.getD true
        supported := true
        state := "unavailable"
        description := rollbackKind job ++
          " rollback failed; use the retained backup and snapshot receipt for manual recovery." }
    error := some
      { code := "rollback_failed"
        message := rollbackFailedMessage job
        remediation := "Use the retained custom-format backup and prior image IDs from the host updater ledger." } }

def recheckAuthorization (id : JobId) : Service Local Unit := do
  let job ← getJob
  when (job.rollbackOperatorRequested.getD false) do
    let current ← host id .installedIdentity
    when (!(job.rollbackAuthorizedIdentity.any fun expected =>
        sameInstalledIdentity current expected)) <|
      raise (.runtime "running release changed after rollback authorization")

/-- The `try` of `_rollback_worker`. -/
def rollbackBody (id : JobId) : Service Local Unit := do
  beginLifecycle id
  recheckAuthorization id
  saveStage .restoringRelease
    "Restoring the prior application images; PostgreSQL is preserved" .rollingBack
  modifyJob fun job => { job with rollbackRestoreDatabase := some false }
  let job ← getJob
  match job.snapshot with
  | none => raise (.runtime "snapshot")
  | some snapshot =>
    host id (.rollback snapshot job.backup false)
    let now ← nowIso
    modifyJob fun job => RolledBack job snapshot now
    saveStage .completed "Prior backend and Web were restored; PostgreSQL is preserved"
      (rollbackTerminal job)

/-- The `except` of `_rollback_worker`. -/
def rollbackFailed : Service Local Unit := do
  modifyJob RollbackFailed
  let job ← getJob
  saveStage .completed (rollbackFailedMessage job) .failed

def rollbackWorker (id : JobId) : Service Local Unit := do
  let record ← loadJob id
  match record with
  | none => pure ()
  | some job =>
    setJob job
    andFinally (orElse (rollbackBody id) fun _ => rollbackFailed) (releaseUnlessPublished id)

/-! ### The update worker -/

def CancelRollback (job : Job) : Job :=
  { job with
    rollbackRestoreDatabase := some false
    rollbackAutomatic := some false
    rollbackOperatorRequested := some false
    rollbackTerminalStatus := some .cancelled }

def cancelIfRequested (id : JobId) : Service Local Bool := do
  let record ← loadJob id
  let job ← getJob
  let current := record.getD job
  if current.cancelRequested && !current.switchStarted then
    modifyJob fun job => job.update current
    let job ← getJob
    if job.snapshot.isSome && job.overrideStarted then
      modifyJob CancelRollback
      saveStage .rollingBack
        "Cancellation requested; restoring the prior application images" .rollingBack
      rollbackWorker id
    else
      saveStage job.stage "Update cancelled before deployment switching" .cancelled
    pure true
  else
    pure false

def beginSwitch (id : JobId) : Service Local Bool :=
  locked do
    let record ← loadJob id
    match record with
    | none => raise (.runtime "update job disappeared before deployment switching")
    | some current =>
      if current.cancelRequested then
        modifyJob fun job => job.update current
        pure false
      else
        let now ← nowIso
        let current := { current with switchStarted := true, updatedAt := now }
        saveJob current
        modifyJob fun job => job.update current
        pure true

/-- The first part of `_worker`: everything up to the handoff, from the top; `false`
when the worker is to return. -/
def prepare (id : JobId) (plan : Plan) : Service Local Bool := do
  let report ← host id (.preflight plan)
  raiseRuntimeBlockers report "runtime preflight changed before update"
  let initialFingerprint : Fingerprint ← host id .deploymentFingerprint
  if ← cancelIfRequested id then return false
  saveStage .pullingImages "Pulling and validating all digest-pinned images" .running
  host id (.pullAndValidate plan)
  let postPullReport ← host id (.preflight plan)
  raiseRuntimeBlockers postPullReport "runtime preflight changed while images were pulled"
  let fingerprint : Fingerprint ← host id .deploymentFingerprint
  when (fingerprint ≠ initialFingerprint)
    (raise (.runtime "deployment identity changed while images were pulled"))
  let snapshot ← host id (.captureSnapshot id)
  modifyJob fun job => { job with snapshot := some snapshot }
  saveWorkerJob
  if ← cancelIfRequested id then return false
  modifyJob fun job => { job with overrideStarted := true }
  saveWorkerJob
  host id (.prepareTargetOverride plan)
  modifyJob fun job => { job with overrideWritten := true }
  saveWorkerJob
  if ← cancelIfRequested id then return false
  let required : Bool ← host id (.updaterHandoffRequired plan)
  if required then
    modifyJob fun job => { job with handoffAttempts := job.handoffAttempts + 1 }
    saveStage .quiescing "Handing off to the signed target updater before application changes"
      .running
    host id .handoffUpdater
    return false
  return true

def completeHandoff (id : JobId) (plan : Plan) : Service Local Unit := do
  let job ← getJob
  when (job.handoffAttempts ≠ 0 && !job.handoffComplete) do
    let required : Bool ← host id (.updaterHandoffRequired plan)
    if required then
      raise (.runtime "signed target updater did not become healthy; the prior supervisor was restored")
    else
      modifyJob fun job => { job with handoffComplete := true }
      saveWorkerJob

def quiesce (id : JobId) : Service Local Unit := do
  let job ← getJob
  when (!job.quiesced) do
    modifyJob fun job => { job with quiesceStarted := true }
    saveStage .quiescing "Stopping the backend writer before the rollback snapshot" .running
    host id .quiesceBackend
    let now ← nowIso
    modifyJob fun job => { job with quiesced := true, quiescedAt := some now }
    saveWorkerJob

def backUp (id : JobId) : Service Local Unit := do
  let job ← getJob
  when job.backup.isNone do
    saveStage .backingUp "Creating and verifying the PostgreSQL rollback backup" .running
    let dump ← host id (.backupPostgres id)
    let job ← getJob
    match job.quiescedAt with
    | none => raise (.runtime "quiesced_at")
    | some quiescedAt =>
      modifyJob fun job => { job with backup := some ⟨dump, true, quiescedAt⟩ }
      saveWorkerJob

def matchesTarget (installed : Identity) (plan : Plan) : Bool :=
  installed.version = plan.version && installed.commitSha = plan.commitSha &&
    installed.channel = "stable" && installed.stateSchema = plan.stateSchema

def successReceipt (job : Job) (snapshot : Snapshot) (plan : Plan) (now : Time) : Receipt where
  jobId := job.jobId
  releaseId := job.release.releaseId
  status := .succeeded
  before := (snapshot.fingerprint.identity.version, snapshot.fingerprint.identity.commitSha)
  after := (plan.version, plan.commitSha)
  components := ["updater", "backend", "webui", "help_center"]
  backupId := some job.jobId
  rollbackPerformed := false
  startedAt := job.startedAt
  completedAt := now

/-- The last part of `_worker`: publish the target override, switch, verify, observe. -/
def switchOver (id : JobId) (plan : Plan) : Service Local Unit := do
  modifyJob fun job => { job with overrideActivationStarted := true }
  saveWorkerJob
  host id (.activateTargetOverride plan)
  modifyJob fun job => { job with overrideActivated := true }
  saveWorkerJob
  saveStage .updatingBackend "Switching the backend to the signed target image" .running
  host id .switchBackend
  saveStage .verifyingBackend "Waiting for target backend readiness and release identity" .running
  host id (.verifyBackend plan)
  saveStage .updatingWebui "Switching the Console and bundled Help Center" .running
  host id .switchWebui
  saveStage .verifyingWebui "Verifying Console health and release identity" .running
  host id (.verifyWebui plan)
  saveStage .observing "Observing the coherent target deployment" .running
  host id (.observe plan)
  let installed ← host id .installedIdentity
  when (!matchesTarget installed plan)
    (raise (.runtime "observed deployment does not match the signed target identity"))
  modifyJob fun job => { job with installedTarget := some installed }
  let job ← getJob
  match job.snapshot with
  | none => raise (.runtime "snapshot")
  | some snapshot =>
    let now ← nowIso
    modifyJob fun job => { job with receipt := some (successReceipt job snapshot plan now) }
    saveStage .completed "Update completed and verified" .succeeded

/-- `_worker` after the handoff. -/
def update (id : JobId) (plan : Plan) : Service Local Unit := do
  completeHandoff id plan
  if ← cancelIfRequested id then return
  quiesce id
  if ← cancelIfRequested id then return
  backUp id
  if ← cancelIfRequested id then return
  if ← beginSwitch id then
    switchOver id plan
  else
    discard (cancelIfRequested id)

/-- The `try` of `_worker`. -/
def workerBody (id : JobId) : Service Local Unit := do
  beginLifecycle id
  let job ← getJob
  let resumedAfterHandoff := job.stage.afterHandoff
  when (!resumedAfterHandoff) <|
    saveStage .verifyingArtifacts "Re-verifying signed release and deployment preconditions"
      .running
  let plan ← host id (.loadVerifiedPlan job.release)
  if resumedAfterHandoff then update id plan
  else if ← prepare id plan then update id plan

def UpdateFailed (job : Job) : Job :=
  { job with
    rollbackRestoreDatabase := some false
    rollbackAutomatic := some true
    rollbackTerminalStatus := some .rolledBack }

/-- The `error` of a failed update. -/
def updateError (e : Failure) : JobError where
  code := "update_failed"
  message := e.text
  remediation := "Review the durable job and rollback receipt, then retry preflight after correcting the reported condition."

def updateFailedMessage : String := "Update failed; automatic rollback started"

/-- The `except` of `_worker`. -/
def workerFailed (id : JobId) (e : Failure) : Service Local Unit := do
  let record ← loadJob id
  modifyJob fun job => { record.getD job with error := some (updateError e) }
  let job ← getJob
  if job.snapshot.isSome && job.overrideStarted then
    modifyJob UpdateFailed
    saveStage .rollingBack updateFailedMessage .rollingBack
    rollbackWorker id
  else
    saveStage job.stage "Update failed before deployment switching" .failed

def worker (id : JobId) : Service Local Unit := do
  let record ← loadJob id
  match record with
  | none => pure ()
  | some job =>
    setJob job
    andFinally (orElse (workerBody id) (workerFailed id)) (releaseUnlessPublished id)

/-! ### The API -/

def validKey (key : Key) : Bool := key ≠ "" && key.length ≤ 160

def fallibly (m : Service L Unit) : Service L Unit := do
  let lost : Bool ← act .fault
  when lost (raise (.runtime "durable write failed"))
  m
  let unsure : Bool ← act .fault
  when unsure (raise (.runtime "durable write failed"))

def relaunch (job : Job) : Service L Unit :=
  when job.status.active do
    beginLifecycle job.jobId
    launch job.jobId (job.status = .rollingBack)

def ReservationFailed (current : Job) (e : Failure) (now : Time) : Job :=
  { current with
    status := .failed
    message := "Update could not reserve the host lifecycle"
    updatedAt := now
    error := some
      { code := "lifecycle_reservation_failed"
        message := e.text
        remediation := "Reconcile the reported host lifecycle state, then run a new preflight." } }

def reserve (job : Job) (keys : Index) (key : Key) : Service L Unit := do
  fallibly (saveJob job)
  fallibly (saveIndex { keys with jobs := keys.jobs.set key job.jobId })
  beginLifecycle job.jobId

def reservationFailed (id : JobId) (e : Failure) : Service L Unit := do
  let record ← loadJob id
  match record with
  | some current =>
    let now ← nowIso
    saveJob (ReservationFailed current e now)
  | none => pure ()
  releaseLifecycle id true
  raise e

def checkPreflight (preflight : Option Preflight) (release : Release) : Service L Preflight := do
  match preflight with
  | none => refuse "preflight token is invalid or belongs to another release" 409
  | some preflight =>
    if preflight.release ≠ release then
      refuse "preflight token is invalid or belongs to another release" 409
    else
      match preflight.expiresAt with
      | none => refuse "preflight token is invalid" 409
      | some expires =>
        let now ← nowIso
        if expires ≤ now then refuse "preflight token expired; run preflight again" 409
        else
          match preflight.response with
          | none => raise (.runtime "response")
          | some true => refuse "preflight has blocking checks" 409
          | some false => pure preflight

def createUpdate (body : StartRequest) (release : Release) (keys : Index) : Service L Job := do
  let record ← loadPreflight body.token
  let preflight ← checkPreflight record release
  let jobs ← listJobs
  if jobs.any fun job => job.status.active then
    refuse "another update job is active" 409
  else
    let id ← act .newId
    let startedAt ← nowIso
    let updatedAt ← nowIso
    let job := Job.queued id release preflight.plan body.key startedAt updatedAt
    orElse (reserve job keys body.key) (reservationFailed id)
    pure job

inductive Lookup where
  | existing (job : Job)
  | repair (job : Job)
  | absent
  | refused (message : String)

/-- The lookup of `start` when the index has the key. -/
def lookupIndexed (record : Option Job) (release : Release) : Lookup :=
  match record with
  | some existing =>
    if existing.release = release then .existing existing
    else .refused "idempotency key was already used for a different request"
  | none => .refused "idempotency key was already used for a different request"

/-- The lookup of `start` among the records, when the index lacks the key. -/
def lookupRecords (jobs : List Job) (release : Release) (key : Key) : Lookup :=
  match jobs.filter fun job => job.startIdempotencyKey = some key with
  | [] => .absent
  | [candidate] =>
    if candidate.release = release then .repair candidate
    else .refused "idempotency key was already used for a different request"
  | _ => .refused "multiple durable update jobs use this idempotency key"

/-- What `start` does with what it found: the job, and whether it was created. -/
def answerStart (body : StartRequest) (release : Release) (keys : Index) :
    Lookup → Service L (Job × Bool)
  | .refused message => refuse message 409
  | .existing job => do
    relaunch job
    pure (job, false)
  | .repair job => do
    saveIndex { keys with jobs := keys.jobs.set body.key job.jobId }
    relaunch job
    pure (job, false)
  | .absent => do
    let job ← createUpdate body release keys
    pure (job, true)

/-- The locked part of `start`. -/
def startSection (body : StartRequest) (release : Release) : Service L (Job × Bool) := do
  let keys ← readIndex
  match keys.jobs.get? body.key with
  | some id =>
    let record ← loadJob id
    answerStart body release keys (lookupIndexed record release)
  | none =>
    let jobs ← listJobs
    answerStart body release keys (lookupRecords jobs release body.key)

def start (body : StartRequest) : Service L Job := do
  match body.release with
  | none => refuse "release request is not valid" 400
  | some release =>
    if body.token = "" || !validKey body.key then
      refuse "preflight_token and idempotency_key are required" 400
    else
      let (job, created) ← locked (startSection body release)
      when created (launch job.jobId false)
      pure job

inductive Operation where
  | replay (record : Job) (repairIndex : Bool)
  | fresh (record : Job)
  | refused (message : String) (status : Nat)

/-- The key check that `cancel` and `request_rollback` share. -/
def operationLookup (keys : Index) (record : Option Job) (key : Key) (binding : Binding) :
    Operation :=
  match record with
  | none => .refused "update job not found" 404
  | some job =>
    match job.operationIdempotency.get? key with
    | some bound =>
      if bound ≠ binding ∨ (keys.operations.get? key).any (· ≠ binding) then
        .refused "idempotency key was already used for another operation" 409
      else .replay job (keys.operations.get? key).isNone
    | none =>
      if (keys.operations.get? key).any (· ≠ binding) then
        .refused "idempotency key was already used for another operation" 409
      else .fresh job

def Index.bind (keys : Index) (key : Key) (binding : Binding) : Index :=
  { keys with operations := keys.operations.set key binding }

def bound (job : Job) (key : Key) (binding : Binding) : Job :=
  { job with operationIdempotency := job.operationIdempotency.set key binding }

def CancelAccepted (job : Job) (key : Key) (id : JobId) (now : Time) : Job :=
  if job.status.active then
    { bound job key (.cancel id) with
      cancelRequested := true
      message := "Cancellation requested"
      updatedAt := now }
  else
    { bound job key (.cancel id) with updatedAt := now }

/-- The locked part of `cancel`. -/
def cancelSection (id : JobId) (key : Key) : Service L Job := do
  let keys ← readIndex
  let record ← loadJob id
  match operationLookup keys record key (.cancel id) with
  | .refused message status => refuse message status
  | .replay job repair =>
    when repair (saveIndex (Index.bind keys key (.cancel id)))
    pure job
  | .fresh job =>
    if job.switchStarted then
      refuse "update cannot be cancelled after deployment switching starts" 409
    else
      let now ← nowIso
      saveJob (CancelAccepted job key id now)
      saveIndex (Index.bind keys key (.cancel id))
      pure (CancelAccepted job key id now)

def cancel (id : JobId) (key : Key) : Service L Job := do
  if !validKey key then refuse "idempotency_key is required" 400
  else locked (cancelSection id key)

def RollbackAccepted (job : Job) (key : Key) (id : JobId) (identity : Identity) (now : Time) :
    Job :=
  { bound job key (.rollback id) with
    status := .rollingBack
    stage := .rollingBack
    progress := Stage.rollingBack.progress
    message := "Operator-requested rollback started"
    rollbackRestoreDatabase := some false
    rollbackAutomatic := some false
    rollbackOperatorRequested := some true
    rollbackTerminalStatus := some .rolledBack
    rollbackAuthorizedIdentity := some identity
    updatedAt := now }

/-- Why a rollback of `job` cannot start, given all jobs. -/
def rollbackObstacle (id : JobId) (job : Job) (jobs : List Job) : Option String :=
  if jobs.any fun candidate => candidate.jobId ≠ id && candidate.status.active then
    some "another update or rollback job is active"
  else if job.status ≠ .succeeded || job.snapshot.isNone then
    some "this job has no rollbackable deployment snapshot"
  else if job.installedTarget.isNone then
    some "this job predates exact installed-release rollback evidence"
  else if jobs.any fun candidate =>
      candidate.jobId ≠ id && decide (job.startedAt < candidate.startedAt) &&
        candidate.switchStarted then
    some "this update was superseded by a later deployment transaction"
  else none

/-- The locked part of `request_rollback`: the job, and whether to launch the rollback. -/
def rollbackSection (id : JobId) (key : Key) : Service L (Job × Bool) := do
  let keys ← readIndex
  let record ← loadJob id
  match operationLookup keys record key (.rollback id) with
  | .refused message status => refuse message status
  | .replay job repair =>
    when repair (saveIndex (Index.bind keys key (.rollback id)))
    if job.status = .rollingBack then pure (job, true)
    else if job.status.terminal then pure (job, false)
    else refuse "durable rollback intent has inconsistent job state" 409
  | .fresh job =>
    -- A job of an older supervisor that bound the key in the index only.
    if (keys.operations.get? key).isSome && job.status = .rollingBack &&
        job.rollbackOperatorRequested = some true then
      saveJob (bound job key (.rollback id))
      pure (bound job key (.rollback id), true)
    else
      let jobs ← listJobs
      match rollbackObstacle id job jobs with
      | some message => refuse message 409
      | none =>
        let identity ← orElse (host id .installedIdentity) fun e =>
          refuse ("current installed release could not be verified: " ++ e.message) 409
        if !(job.installedTarget.any fun target => sameInstalledIdentity identity target) then
          refuse "the running release no longer matches this job's verified target" 409
        else
          let now ← nowIso
          saveJob (RollbackAccepted job key id identity now)
          saveIndex (Index.bind keys key (.rollback id))
          pure (RollbackAccepted job key id identity now, true)

def requestRollback (id : JobId) (key : Key) : Service L Job := do
  if !validKey key then refuse "idempotency_key is required" 400
  else
    let (job, launches) ← locked (rollbackSection id key)
    when launches do
      beginLifecycle id
      launch id true
    pure job

end Service

end AgenticKibana.Updater
