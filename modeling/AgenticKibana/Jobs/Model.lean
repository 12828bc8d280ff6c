import AgenticKibana.Library.Dict
import AgenticKibana.Library.Json

/-!
# The job record, and what the store does to one row

The durable record of one server-owned operator job, the registry document it is
stored in, and what the store checks of a row each time it reads the document
(`Job.validates`).  A timestamp is the text the record holds: ISO timestamps are
canonical and ordered as strings.

Then for each operation what it writes into the row it has looked up; the lookups, the
ownership check and the registry around the row are in `Jobs.Operations`.
-/

namespace AgenticKibana.Jobs

open AgenticKibana.Library

/-! ### Constants -/

def maxJobs : Nat := 1000
def maxFailures : Nat := 20
def maxRegistryParamBytes : Nat := 8 * 1024 * 1024
def maxRetainedArtifacts : Nat := 50

inductive JobKind where
  | caseReinvestigate
  | caseLifecycle
  | caseAssign
  | caseTag
  | dataExportArchive
  | dataExportSegment
  | precedentBootstrap
  | runbookReindex
  | ragImport
  | ragRebuild
  | tieredReset
  | storageLifecycleApply
  | replayExperiment
deriving DecidableEq, Repr

def JobKind.value : JobKind → String
  | .caseReinvestigate => "case_reinvestigate"
  | .caseLifecycle => "case_lifecycle"
  | .caseAssign => "case_assign"
  | .caseTag => "case_tag"
  | .dataExportArchive => "data_export_archive"
  | .dataExportSegment => "data_export_segment"
  | .precedentBootstrap => "precedent_bootstrap"
  | .runbookReindex => "runbook_reindex"
  | .ragImport => "rag_import"
  | .ragRebuild => "rag_rebuild"
  | .tieredReset => "tiered_reset"
  | .storageLifecycleApply => "storage_lifecycle_apply"
  | .replayExperiment => "replay_experiment"

/-- `_RETRY_SAFE_KINDS`: an interrupted item of these kinds is run again. -/
def JobKind.retrySafe : JobKind → Bool
  | .dataExportArchive | .dataExportSegment | .precedentBootstrap | .runbookReindex
  | .ragRebuild => true
  | _ => false

/-- `partialResult` is the status `PARTIAL`. -/
inductive JobStatus where
  | queued
  | running
  | succeeded
  | partialResult
  | failed
  | cancelled
deriving DecidableEq, Repr

def JobStatus.value : JobStatus → String
  | .queued => "queued"
  | .running => "running"
  | .succeeded => "succeeded"
  | .partialResult => "partial"
  | .failed => "failed"
  | .cancelled => "cancelled"

/-- `status in TERMINAL_STATUSES`. -/
def JobStatus.terminal : JobStatus → Bool
  | .succeeded | .partialResult | .failed | .cancelled => true
  | .queued | .running => false

inductive ItemState where
  | pending
  | processing
  | succeeded
  | failed
deriving DecidableEq, Repr

def ItemState.recorded : ItemState → Bool
  | .succeeded | .failed => true
  | .pending | .processing => false

/-! ### Records -/

structure JobProgress where
  done : Nat
  total : Nat
  unit : String
deriving DecidableEq, Repr

structure JobFailure where
  itemRef : String
  reason : String
deriving DecidableEq, Repr

structure JobResult where
  kind : String
  artifactId : Option String
  counts : Dict String Int
deriving DecidableEq

structure JobPermission where
  resource : String
  action : String
deriving DecidableEq, Repr

structure JobTransition where
  seq : Nat
  name : String
  summary : String
  audited : Bool
deriving DecidableEq, Repr

structure JobArtifact where
  artifactId : String
  filename : String
  contentType : String
  size : Nat
  sha256 : String
  createdAt : String
deriving DecidableEq, Repr

structure Job where
  jobId : String
  kind : JobKind
  actor : String
  actorGeneration : String
  createdAt : String
  startedAt : Option String
  finishedAt : Option String
  status : JobStatus
  progress : JobProgress
  failures : List JobFailure
  failureCount : Nat
  failuresTruncated : Nat
  requestFingerprint : String
  idempotencyKeyHash : String
  result : Option JobResult
  params : Dict String Json
  requiredPermissions : List JobPermission
  freshAuthorizedUntilMillis : Nat
  freshSessionId : Option String
  freshTokenVersion : Option Nat
  cancelRequested : Bool
  itemStates : Dict String ItemState
  leaseOwner : Option String
  leaseToken : Option String
  leaseExpiresAtMillis : Nat
  transitionSeq : Nat
  transitions : List JobTransition
  artifact : Option JobArtifact
  pendingArtifactId : Option String
  pendingArtifactSuffix : Option String
  inboxSynced : Bool
  retired : Bool
  appVersion : Option String
  buildSha : Option String

structure Registry where
  jobs : Dict String Job
  idempotency : Dict String String
  factoryFence : String

def Registry.fresh : Registry := ⟨.empty, .empty, ""⟩

/-! ### What the record model checks -/

/-- `min_length ≤ len(s) ≤ max_length`. -/
def lengthWithin (lo hi : Nat) (s : String) : Bool := lo ≤ s.length && s.length ≤ hi

def optLengthWithin (hi : Nat) : Option String → Bool
  | none => true
  | some s => lengthWithin 0 hi s

def isHexDigit (c : Char) : Bool := ('0' ≤ c && c ≤ '9') || ('a' ≤ c && c ≤ 'f')

/-- `^[0-9a-f]{64}$`. -/
def isSha256 (s : String) : Bool := s.length = 64 && s.toList.all isHexDigit

/-- `^(?:[0-9a-f]{64})?$`. -/
def isOptSha256 (s : String) : Bool := s = "" || isSha256 s

def JobProgress.validates (p : JobProgress) : Bool := lengthWithin 1 40 p.unit

def JobFailure.validates (f : JobFailure) : Bool :=
  lengthWithin 0 200 f.itemRef && lengthWithin 0 500 f.reason

def JobResult.validates (r : JobResult) : Bool :=
  lengthWithin 1 80 r.kind && optLengthWithin 120 r.artifactId

def JobPermission.validates (p : JobPermission) : Bool :=
  lengthWithin 1 80 p.resource && lengthWithin 1 80 p.action

def JobTransition.validates (t : JobTransition) : Bool :=
  1 ≤ t.seq && lengthWithin 1 40 t.name && lengthWithin 0 500 t.summary

def JobArtifact.validates (a : JobArtifact) : Bool :=
  lengthWithin 1 120 a.artifactId && lengthWithin 1 240 a.filename &&
    lengthWithin 1 120 a.contentType && isSha256 a.sha256

def factoryReceiptParams : Dict String Json := ⟨[("scope", .str "factory")], by simp⟩

/-- The row carries the parameters `{"scope": "factory"}` and nothing else. -/
def Job.hasReceiptParams (j : Job) : Bool := j.params = factoryReceiptParams

def Job.headerValidates (j : Job) : Bool :=
  lengthWithin 0 120 j.jobId && lengthWithin 0 160 j.actor &&
    lengthWithin 0 64 j.actorGeneration && isOptSha256 j.requestFingerprint &&
    isOptSha256 j.idempotencyKeyHash && j.requiredPermissions.all JobPermission.validates &&
    optLengthWithin 160 j.freshSessionId

def Job.bodyValidates (j : Job) : Bool :=
  j.progress.validates && j.failures.all JobFailure.validates &&
    j.result.all JobResult.validates && optLengthWithin 160 j.leaseOwner &&
    optLengthWithin 160 j.leaseToken && j.transitions.all JobTransition.validates &&
    j.artifact.all JobArtifact.validates && optLengthWithin 120 j.pendingArtifactId &&
    optLengthWithin 16 j.pendingArtifactSuffix

/-- `not request_fingerprint or not idempotency_key_hash`. -/
def Job.emptyIdentity (j : Job) : Bool := j.requestFingerprint = "" || j.idempotencyKeyHash = ""

def Job.validReceipt (j : Job) : Bool :=
  j.requestFingerprint = "" && j.idempotencyKeyHash = "" && j.kind = .tieredReset &&
    j.actor = "" && j.actorGeneration = "" && j.status.terminal && j.hasReceiptParams &&
    j.requiredPermissions.isEmpty && j.freshSessionId.all (· = "") &&
    j.freshTokenVersion.isNone && j.itemStates.entries.isEmpty && j.failures.isEmpty &&
    j.failureCount = 0 && j.artifact.isNone && j.pendingArtifactId.isNone && !j.retired

/-- `Job.model_validate`: field bounds, then `_factory_receipt_or_executable`. -/
def Job.validates (j : Job) : Bool :=
  j.headerValidates && j.bodyValidates && (!j.emptyIdentity || j.validReceipt)

/-! ### What the store does to one row -/

inductive JobError where
  | keyError (jobId : String)
  | runtimeError (message : String)
  | jobConflict (message : String)
  | jobCapacity (message : String)
  | valueError (message : String)
  | conversion (e : Json.ConversionError)
deriving DecidableEq, Repr

/-- What one attempt takes from the interpreter: its clock (`isoNow id` is the
reading for the row `id`), a fresh identifier, and the case folding of text. -/
structure Env where
  nowMs : Nat
  isoNow : String → String
  uuid : String
  lower : String → String

/-- `s[:n]`. -/
def sliceTo (n : Nat) (s : String) : String := String.ofList (s.toList.take n)

/-- `x or y` on text. -/
def orText (x y : String) : String := if x = "" then y else x

/-- The characters `str.strip` removes. -/
def isPySpace (c : Char) : Bool :=
  let n := c.toNat
  (9 ≤ n && n ≤ 13) || (28 ≤ n && n ≤ 32) || n = 0x85 || n = 0xa0 || n = 0x1680 ||
    (0x2000 ≤ n && n ≤ 0x200a) || n = 0x2028 || n = 0x2029 || n = 0x202f || n = 0x205f ||
    n = 0x3000

def strip (s : String) : String :=
  String.ofList ((s.toList.dropWhile isPySpace).reverse.dropWhile isPySpace).reverse

def jsonSize (params : Dict String Json) : Nat := Json.utf8Length (Json.dumps (.obj params.entries))

def getOr (raw : Dict String Json) (key : String) (default : Json) : Json :=
  (raw.get? key).getD default

def convert {α : Type} : Except Json.ConversionError α → Except JobError α
  | .ok a => .ok a
  | .error e => .error (.conversion e)

/-- `raw.get(key) or []`. -/
def listOrEmpty (raw : Dict String Json) (key : String) : Json :=
  (getOr raw key .null).orElse (.arr [])

/-- `int(raw.get("case_count", len(raw.get("case_ids") or [])))`. -/
def caseCount (raw : Dict String Json) : Except JobError Json := do
  let n ← convert (listOrEmpty raw "case_ids").pyLen
  let count ← convert (getOr raw "case_count" (.int n)).pyInt
  return .int count

/-- `str(raw.get(key) or "")[:n]`. -/
def textParam (raw : Dict String Json) (key : String) (n : Nat) : String :=
  sliceTo n ((getOr raw key .null).orElse (.str "")).pyStr

def armIds (arms : List Json) : List Json :=
  (arms.filterMap fun arm => match arm with
    | .obj ms => some (Json.str (sliceTo 40
        (((Dict.lookup "arm_id" ms).getD .null).orElse (.str "")).pyStr))
    | _ => none).take 2

/-- `_compact_params`: the bounded display summary of resumable input that is spent. -/
def compactParams (kind : JobKind) (raw : Dict String Json) :
    Except JobError (Dict String Json) :=
  match kind with
  | .caseReinvestigate => do
      let n ← caseCount raw
      return .ofList [("case_count", n), ("model", getOr raw "model" .null)]
  | .caseLifecycle => do
      let n ← caseCount raw
      return .ofList [("case_count", n), ("action", getOr raw "action" .null)]
  | .caseAssign => do
      let n ← caseCount raw
      return .ofList [("case_count", n), ("assignee", .str (textParam raw "assignee" 80))]
  | .caseTag => do
      let n ← caseCount raw
      return .ofList [("case_count", n), ("tag", .str (textParam raw "tag" 40))]
  | .dataExportArchive | .dataExportSegment => do
      let scopes ← convert (listOrEmpty raw "scopes").pyList
      let out : Dict String Json := .ofList [("scopes", .arr (scopes.take 20))]
      if (getOr raw "page_size" .null).truthy then
        let n ← convert (getOr raw "page_size" .null).pyInt
        return out.set "page_size" (.int n)
      else return out
  | .precedentBootstrap => do
      let limit ← convert ((getOr raw "limit" .null).orElse (.int 0)).pyInt
      return .ofList [("limit", .int limit), ("dry_run", .bool (getOr raw "dry_run" .null).truthy)]
  | .runbookReindex =>
    let id := textParam raw "runbook_id" 160
    return .ofList [("runbook_id", if id = "" then .null else .str id)]
  | .ragImport => do
      let documents ← convert (listOrEmpty raw "documents").pyList
      let n ← convert (getOr raw "document_count" (.int documents.length)).pyInt
      return .ofList [("document_count", .int n)]
  | .ragRebuild => return .empty
  | .tieredReset => return .ofList [("scope", .str (textParam raw "scope" 20))]
  | .storageLifecycleApply =>
    return .ofList [("acknowledge", .bool (getOr raw "acknowledge" .null).truthy)]
  | .replayExperiment => do
      let fixtures ← convert (listOrEmpty raw "fixture_ids").pyList
      let arms ← convert (listOrEmpty raw "arms").pyList
      let repeats ← convert ((getOr raw "repeats" .null).orElse (.int 0)).pyInt
      let bound ← convert
        ((getOr raw "spend_bound_usd" .null).orElse (.float (Decimal.ofInt 0))).pyFloat
      return .ofList [("fixture_count", .int fixtures.length), ("arm_ids", .arr (armIds arms)),
        ("repeats", .int repeats), ("spend_bound_usd", .float bound)]

/-! ### Helpers -/

namespace Job

def transition (j : Job) (name summary : String) : Job :=
  { j with
    transitionSeq := j.transitionSeq + 1
    transitions := j.transitions ++ [⟨j.transitionSeq + 1, name, sliceTo 500 summary, false⟩] }

/-- `_append_failure`: at most `MAX_FAILURES` are kept, every one is counted. -/
def appendFailure (j : Job) (itemRef reason : String) : Job :=
  let failures :=
    if j.failures.length < maxFailures then
      j.failures ++ [⟨sliceTo 200 itemRef, sliceTo 500 reason⟩]
    else j.failures
  { j with
    failureCount := j.failureCount + 1
    failures := failures
    failuresTruncated := j.failureCount + 1 - failures.length }

def countItems (j : Job) (p : ItemState → Bool) : Nat := (j.itemStates.values.filter p).length

def recount (j : Job) : Job :=
  { j with
    progress :=
      { j.progress with
        done := j.countItems ItemState.recorded
        total := j.itemStates.size } }

def jobErrors (j : Job) : Nat := j.failureCount - j.countItems (· = .failed)

def terminalSummary (j : Job) : String :=
  "status=" ++ j.status.value ++
    " done=" ++ toString j.progress.done ++ "/" ++ toString j.progress.total ++
    " succeeded=" ++ toString (j.countItems (· = .succeeded)) ++
    " failed=" ++ toString (j.countItems (· = .failed)) ++
    " job_errors=" ++ toString j.jobErrors

/-- The result `_compact_terminal` leaves on the row. -/
def terminalResult (j : Job) (result : Option JobResult) : Option JobResult :=
  match result, j.result with
  | some r, _ =>
    some { r with
      counts := if j.jobErrors = 0 then r.counts else r.counts.set "job_errors" j.jobErrors }
  | none, some r => some r
  | none, none =>
    let counts : Dict String Int := .ofList
      [("succeeded", (j.countItems (· = .succeeded) : Nat)),
        ("failed", (j.countItems (· = .failed) : Nat)), ("total", (j.progress.total : Nat))]
    some ⟨j.kind.value, none,
      if j.jobErrors = 0 then counts else counts.set "job_errors" j.jobErrors⟩

/-- `_compact_terminal`: drop every large or replayable input, keep the aggregate. -/
def compactTerminal (j : Job) (result : Option JobResult) : Except JobError Job := do
  let j := j.recount
  let params ← compactParams j.kind j.params
  return { j with
    result := j.terminalResult result
    params := params
    itemStates := .empty
    pendingArtifactId := none
    pendingArtifactSuffix := none }

/-- `finished_at or created_at`. -/
def endedAt (j : Job) : String := orText (j.finishedAt.getD "") j.createdAt

def factoryReceiptRow (j : Job) : Bool := j.kind = .tieredReset && j.hasReceiptParams

/-! ### The operations on a row -/

/-- `job.status == QUEUED`, or running under an expired lease. -/
def claimable (j : Job) (nowMs : Nat) : Bool :=
  j.status = .queued || (j.status = .running && j.leaseExpiresAtMillis ≤ nowMs)

def interruptedReason : String :=
  "worker interrupted after execution began; item was not retried to avoid duplicate effects"

def ambiguous (j : Job) : List String :=
  (j.itemStates.entries.filter fun e => e.2 = .processing).map Prod.fst

/-- Items left in `processing` by a lost worker: retried only for the retry-safe
kinds, failed for all others. -/
def recoverItems (j : Job) : Job :=
  if j.kind.retrySafe then
    { j with itemStates := j.itemStates.mapValues fun _ st =>
        if st = .processing then .pending else st }
  else
    j.ambiguous.foldl (fun j ref => j.appendFailure ref interruptedReason)
      { j with itemStates := j.itemStates.mapValues fun _ st =>
          if st = .processing then .failed else st }

/-- The row `claim_next` hands out. -/
def claim (j : Job) (env : Env) (owner : String) (leaseMillis : Nat) : Job :=
  let held := { j with
    status := .running
    inboxSynced := false
    leaseOwner := some owner
    leaseToken := some env.uuid
    leaseExpiresAtMillis := env.nowMs + max 30000 leaseMillis }
  if j.startedAt.isNone then
    { held with startedAt := some (env.isoNow j.jobId) }.transition "started"
      "server worker claimed queued job"
  else if j.status = .running then
    -- An interrupted archive has an ambiguous private file: its reservation is dropped.
    let rotated :=
      if j.pendingArtifactId.getD "" = "" then held
      else { held with pendingArtifactId := none, pendingArtifactSuffix := none }
    rotated.recoverItems.recount.transition "resumed" "expired worker lease recovered"
  else held

def releaseClaim (j : Job) : Job :=
  { j with status := .queued, leaseOwner := none, leaseToken := none, leaseExpiresAtMillis := 0 }

def renew (j : Job) (env : Env) (leaseMillis : Nat) : Job :=
  { j with leaseExpiresAtMillis := env.nowMs + max 30000 leaseMillis }

def beginItem (j : Job) (itemRef : String) : Job :=
  if j.itemStates.get? itemRef = some .pending then
    { j with itemStates := j.itemStates.set itemRef .processing }
  else j

/-- `str(unit or "items")[:40]`. -/
def unitText (unit : String) : String := sliceTo 40 (orText unit "items")

def ensureItems (j : Job) (itemRefs : List String) (unit : String) : Job :=
  let states := itemRefs.foldl (fun states itemRef =>
    let ref := sliceTo 200 itemRef
    if ref = "" then states else states.setDefault ref .pending) j.itemStates
  let j := { j with itemStates := states }.recount
  { j with progress := { j.progress with unit := unitText unit } }

def setProgress (j : Job) (done total : Int) (unit : String) : Job :=
  let boundedTotal := max 0 total
  { j with progress := ⟨(min (max 0 done) boundedTotal).toNat, boundedTotal.toNat, unitText unit⟩ }

def completeItem (j : Job) (itemRef : String) (error : Option String) : Job :=
  match j.itemStates.get? itemRef with
  | some .succeeded | some .failed => j
  | _ =>
    match error.getD "" with
    | "" => { j with itemStates := j.itemStates.set itemRef .succeeded }.recount
    | reason =>
      ({ j with itemStates := j.itemStates.set itemRef .failed }.appendFailure itemRef
        reason).recount

/-- `actor` and generation, as `request_cancel` compares them. -/
def heldBy (j : Job) (env : Env) (actor : String) (generation : Option String) : Bool :=
  env.lower (strip j.actor) = env.lower (strip actor) &&
    generation.all (· = j.actorGeneration)

/-- The cancellation of a row that has not ended: at once while it is queued,
cooperatively while it runs. -/
def requestCancel (j : Job) (env : Env) : Except JobError Job :=
  let asked :=
    if j.cancelRequested then j
    else { j with cancelRequested := true, inboxSynced := false }.transition "cancel_requested"
      "cooperative cancellation requested"
  if asked.status = .queued then do
    let ended ← { asked with
      status := .cancelled, finishedAt := some (env.isoNow j.jobId) }.compactTerminal none
    return ended.transition "cancelled" "cancelled before execution"
  else return asked

/-- A running row of a deleted account: it may finish, but projects nothing. -/
def retire (j : Job) : Job :=
  { j with cancelRequested := true, retired := true, inboxSynced := true }

def setInboxSynced (j : Job) (synced : Bool) : Job := { j with inboxSynced := synced }

def finish (j : Job) (env : Env) (status : JobStatus) (result : Option JobResult)
    (jobError : Option String) : Except JobError Job := do
  let noted := match jobError.getD "" with
    | "" => j
    | reason => j.appendFailure "job" reason
  let ended := { noted.recount with
    status := status, finishedAt := some (env.isoNow j.jobId), inboxSynced := false }
  let compacted ← ended.compactTerminal result
  return { compacted with
    leaseOwner := none, leaseToken := none, leaseExpiresAtMillis := 0 }.transition
      status.value ended.terminalSummary

def reserveArtifact (j : Job) (env : Env) (suffix : String) : Job :=
  if j.pendingArtifactId.getD "" = "" then
    { j with pendingArtifactId := some env.uuid, pendingArtifactSuffix := some suffix }
  else j

def clearPending (j : Job) : Job :=
  { j with pendingArtifactId := none, pendingArtifactSuffix := none }

def clearPendingArtifact (j : Job) (artifactId : String) : Job :=
  if j.pendingArtifactId = some artifactId then j.clearPending else j

def attachArtifact (j : Job) (artifact : JobArtifact) : Job :=
  { j.clearPending with artifact := some artifact }

def expireArtifact (j : Job) : Job :=
  { j with
    artifact := none
    result := j.result.map fun r => { r with artifactId := none } }

def auditFirst (seq : Nat) : List JobTransition → List JobTransition
  | [] => []
  | t :: ts => if t.seq = seq then { t with audited := true } :: ts else t :: auditFirst seq ts

def markTransitionAudited (j : Job) (seq : Nat) : Job :=
  { j with transitions := auditFirst seq j.transitions }

def markTransitionsUnaudited (j : Job) : Job :=
  { j with transitions := j.transitions.map fun t => { t with audited := false } }

def stopForFence (j : Job) (env : Env) : Except JobError Job :=
  let asked := { j with cancelRequested := true, inboxSynced := false }
  if asked.status = .queued then do
    let ended ← { asked with
      status := .cancelled, finishedAt := some (env.isoNow j.jobId) }.compactTerminal none
    return ended.transition "cancelled" "cancelled by factory reset fence"
  else return asked

def countText (r : JobResult) (name : String) : String := toString ((r.counts.get? name).getD 0)

/-- The sanitized system receipt `factory_compact` leaves in place of everything. -/
def factoryReceipt (current : Job) (env : Env) (status : JobStatus) (result : JobResult)
    (appVersion buildSha : String) : Job :=
  let receipt : Job :=
    { jobId := current.jobId
      kind := .tieredReset
      actor := ""
      actorGeneration := ""
      createdAt := current.createdAt
      startedAt := current.startedAt
      finishedAt := some (env.isoNow current.jobId)
      status := status
      progress := ⟨1, 1, "reset"⟩
      failures := []
      failureCount := 0
      failuresTruncated := 0
      requestFingerprint := ""
      idempotencyKeyHash := ""
      result := some result
      params := factoryReceiptParams
      requiredPermissions := []
      freshAuthorizedUntilMillis := 0
      freshSessionId := none
      freshTokenVersion := none
      cancelRequested := false
      itemStates := .empty
      leaseOwner := none
      leaseToken := none
      leaseExpiresAtMillis := 0
      transitionSeq := 0
      transitions := []
      artifact := none
      pendingArtifactId := none
      pendingArtifactSuffix := none
      inboxSynced := false
      retired := false
      appVersion := some appVersion
      buildSha := some buildSha }
  receipt.transition "factory_receipt"
    ("status=" ++ status.value ++ " attempted=" ++ countText result "attempted" ++
      " cleared=" ++ countText result "cleared" ++ " failed=" ++ countText result "failed")

end Job

end AgenticKibana.Jobs
