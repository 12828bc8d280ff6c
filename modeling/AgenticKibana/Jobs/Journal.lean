import AgenticKibana.Jobs.Leases

/-!
# The job runner, and the journal of a row

A runner claims a job, passes a checkpoint, and hands over to the handler of the kind; between any
two of its store calls every other runner and every request may run, and it may be stopped at any
of them.  A call may fail before it is written, or be written without the runner learning of it.

Followed statement by statement are the handlers whose jobs are not safe to retry: the item loop,
the loop of a replay, the tiered reset and the lifecycle apply.  The others may make any call
under their own lease.  The ghost `effects` collects the external effects in the order in which
they are started.

An item is marked before its effect is started, and for these kinds it never goes back to pending.
-/

namespace AgenticKibana.Jobs

open AgenticKibana.Library

/-! ### Handlers -/

inductive Handler where
  | items
  | replay
  | single (itemRef : String)
  | other
deriving DecidableEq, Repr

def JobKind.handler : JobKind → Handler
  | .caseReinvestigate | .caseLifecycle | .caseAssign | .caseTag | .ragImport => .items
  | .replayExperiment => .replay
  | .tieredReset => .single "reset"
  | .storageLifecycleApply => .single "apply"
  | _ => .other

def JobKind.itemRef (kind : JobKind) : String :=
  match kind.handler with
  | .single ref => ref
  | _ => ""

/-- `_LEASE_MILLIS`. -/
def runnerLeaseMillis : Nat := 5 * 60 * 1000

def Job.fixtures (j : Job) : List (String × ItemState) := (fixtureIds j.params).map (·, .pending)

/-- `_resumed_attempt`: an item has ended, so an earlier execution has spent. -/
def Job.resumed (j : Job) : Bool :=
  j.itemStates.values.any fun st => st = .succeeded || st = .failed

def resumedMessage : String :=
  "this replay was interrupted after it began spending and cannot be resumed: its spend bound "
    ++ "applies to the whole job and cannot be carried across a worker restart. The spend it "
    ++ "already made is in the usage ledger and in its replay-spend audit row; submit a new run "
    ++ "for the remaining fixtures."

def unavailableMessage : String :=
  "fixture is unavailable; its stored body is missing or no longer matches its catalogued "
    ++ "content hash"

def refusedOp (job : Job) (token reason : String) : Op :=
  .finish job.jobId token .failed
    (some ⟨"replay_experiment", none, .ofList [("succeeded", 0), ("failed", 0),
      ("total", (fixtureIds job.params).length)]⟩) (some reason)

def JobKind.resultKind : JobKind → String
  | .caseReinvestigate => "case_reinvestigation"
  | .caseLifecycle => "case_lifecycle"
  | .caseAssign => "case_assignment"
  | .caseTag => "case_tagging"
  | kind => kind.value

/-- `PARTIAL if failed and done else FAILED if failed else SUCCEEDED`. -/
def outcomeStatus (failed done : Nat) : JobStatus :=
  if failed ≠ 0 ∧ done ≠ 0 then .partialResult else if failed ≠ 0 then .failed else .succeeded

def summaryOp (job : Job) (token : String) (current : Job) : Op :=
  let succeeded := current.itemStates.values.count .succeeded
  let failed := current.itemStates.values.count .failed
  .finish job.jobId token (outcomeStatus failed succeeded)
    (some ⟨job.kind.resultKind, none, .ofList [("succeeded", succeeded), ("failed", failed),
      ("total", current.progress.total)]⟩) none

def failedItemOp (job : Job) (token : String) : Op :=
  .finish job.jobId token .failed
    (some ⟨job.kind.value, none,
      if job.kind = .tieredReset then
        .ofList [("attempted", 1), ("cleared", 0), ("succeeded", 0), ("failed", 1), ("total", 1)]
      else
        .ofList [("applied", 0), ("targets", 0), ("succeeded", 0), ("failed", 1), ("total", 1)]⟩)
    none

structure Report where
  attempted : Nat
  cleared : Nat
  failed : Nat
  confirmed : Bool
  applied : Bool
  targets : Nat
  appVersion : String
  buildSha : String

/-- `ResetScope(job.params["scope"]) == ResetScope.FACTORY`. -/
def Job.factoryScope (j : Job) : Bool := j.params.get? "scope" = some (.str "factory")

def unconfirmedMessage : String := "factory reset privacy boundary was not fully confirmed"

def resetOp (job : Job) (token : String) (r : Report) : Op :=
  let result : JobResult := ⟨"tiered_reset", none, .ofList [("attempted", r.attempted),
    ("cleared", r.cleared), ("succeeded", (r.attempted - r.failed : Nat)), ("failed", r.failed),
    ("total", r.attempted)]⟩
  if job.factoryScope then
    if r.confirmed then
      .factoryCompact job.jobId token (outcomeStatus r.failed r.cleared) result r.appVersion
        r.buildSha
    else .finish job.jobId token .failed (some result) (some unconfirmedMessage)
  else .finish job.jobId token (outcomeStatus r.failed r.cleared) (some result) none

def appliedOp (job : Job) (token : String) (r : Report) : Op :=
  .finish job.jobId token .succeeded
    (some ⟨"storage_lifecycle_apply", none, .ofList [("applied", if r.applied then 1 else 0),
      ("targets", r.targets), ("succeeded", 1), ("failed", 0), ("total", 1)]⟩) none

inductive Resume where
  | handler
  | item (ref : String) (rest : List (String × ItemState))
  | summary
  | fixtures
  | refused (reason : String)
  | prepare
  | wrapUp (op : Op)

inductive Point where
  /-- Before the read of a checkpoint, and before its renewal. -/
  | gate (k : Resume)
  | renewing (k : Resume)
  /-- Before the loop of a replay, while what it needs is put together. -/
  | building
  /-- In a loop, with the entries that are left. -/
  | loop (rest : List (String × ItemState))
  | progressing (ref : String) (rest : List (String × ItemState))
  | begin (ref : String) (rest : List (String × ItemState))
  | ready (ref : String) (rest : List (String × ItemState))
  | effect (ref : String) (rest : List (String × ItemState))
  | complete (ref : String) (rest : List (String × ItemState)) (error : Option String)
  /-- In a handler with one item, with the state its checkpoint saw. -/
  | prepare (seen : Option ItemState)
  | fencing (seen : Option ItemState)
  | draining (seen : Option ItemState)
  | primed (seen : Option ItemState)
  | running
  | recording (r : Report)
  /-- The ends of an execution. -/
  | ending (op : Op)
  | reopening
  | unfencing (reason : String)
  | failing (reason : String)
  /-- In a handler that is not followed, or behind the loop of a replay. -/
  | handling

inductive Worker where
  | idle
  | claimed (job : Job) (token : String)
  | executing (job : Job) (token : String) (p : Point)

structure Runners where
  doc : Document
  worker : Nat → Worker
  effects : List (String × String)

def noRunners : Runners := ⟨emptyDocument, fun _ => .idle, []⟩

/-! ### Local steps -/

/-- `_execute`'s dispatch, and the points the other checkpoints guard.  The item loop
goes over the row as it was claimed, `current` is the renewed one. -/
def Resume.next (job : Job) (token : String) (current : Job) : Resume → Point
  | .handler =>
    match job.kind.handler with
    | .items => .loop job.itemStates.entries
    | .replay => .gate .fixtures
    | .single _ => .gate .prepare
    | .other => .handling
  | .item ref rest =>
    if job.kind.handler = .replay then .progressing ref rest else .begin ref rest
  | .summary => .ending (summaryOp job token current)
  | .fixtures => if current.resumed then .gate (.refused resumedMessage) else .building
  | .refused reason => .ending (refusedOp job token reason)
  | .prepare =>
    if current.itemStates.get? job.kind.itemRef = some .failed then
      .ending (failedItemOp job token)
    else .prepare (current.itemStates.get? job.kind.itemRef)
  | .wrapUp op => .ending op

def Point.call (job : Job) (token : String) : Point → Option Op
  | .renewing _ => some (.renew job.jobId token runnerLeaseMillis)
  | .progressing _ rest =>
    some (.setProgress job.jobId token (job.fixtures.length - rest.length - 1 : Int)
      job.fixtures.length "replay fixtures")
  | .begin ref _ => some (.beginItem job.jobId token ref)
  | .complete ref _ error => some (.completeItem job.jobId token ref error)
  | .prepare _ => some (.beginItem job.jobId token job.kind.itemRef)
  | .fencing _ => some (.beginFactoryFence job.jobId token)
  | .recording _ => some (.completeItem job.jobId token job.kind.itemRef none)
  | .ending op => some op
  | .reopening | .unfencing _ => some (.releaseFactoryFence job.jobId)
  | _ => none

def Point.returned (job : Job) (token : String) (val : Val) : Point → Worker
  | .renewing k =>
    match val with
    | .job current => .executing job token (k.next job token current)
    | _ => .idle
  | .progressing ref rest => .executing job token (.begin ref rest)
  | .begin ref rest => .executing job token (.ready ref rest)
  | .complete _ rest _ => .executing job token (.loop rest)
  | .prepare seen =>
    .executing job token (if job.kind = .tieredReset ∧ job.factoryScope then .fencing seen
      else .primed seen)
  | .fencing seen => .executing job token (.draining seen)
  | .recording r =>
    .executing job token (if job.kind = .tieredReset then .ending (resetOp job token r)
      else .gate (.wrapUp (appliedOp job token r)))
  | .ending (.factoryCompact _ _ _ _ _ _) => .executing job token .reopening
  | .unfencing reason => .executing job token (.failing reason)
  | _ => .idle

/-- Where an exception at a point leads.  A loop records a failing item; a failure once the fence
is raised lifts it again; every other one ends the execution.  The item loop guards the record of
a success as well. -/
def Point.raised (job : Job) (token reason : String) : Point → Worker
  | .effect ref rest => .executing job token (.complete ref rest (some reason))
  | .complete ref rest none =>
    .executing job token
      (if job.kind.handler = .replay then .failing reason else .complete ref rest (some reason))
  | .draining _ => .executing job token (.unfencing reason)
  | .ending _ | .reopening | .failing _ => .idle
  | _ => .executing job token (.failing reason)

/-- The ways out of the loop of a replay: it is refused before it begins, it is cancelled
or its spend bound is reached between two items, a fixture is unavailable, or the authority
is lost while one runs. -/
def Point.diverted (job : Job) (token reason : String) : Point → Option Point
  | .building => some (.gate (.refused reason))
  | .loop _ | .begin _ _ => some .handling
  | .ready ref rest => some (.complete ref rest (some unavailableMessage))
  | .effect _ _ => some (.ending (.finish job.jobId token .failed none (some reason)))
  | _ => none

/-- The step between two calls that needs no store call of its own: the head of a loop, the
wait for quiescence, and the last look at the row after a failure. -/
def Point.advance (d : Registry) (job : Job) (token : String) : Point → Option Worker
  | .building => some (.executing job token (.loop job.fixtures))
  | .loop [] =>
    some (.executing job token (if job.kind.handler = .replay then .handling else .gate .summary))
  | .loop ((ref, st) :: rest) =>
    some (.executing job token
      (if st = .succeeded ∨ st = .failed then .loop rest else .gate (.item ref rest)))
  | .draining seen =>
    match factoryQuiescent d job.jobId token with
    | .ok true => some (.executing job token (.primed seen))
    | .ok false => some (.executing job token (.draining seen))
    | .error _ => some (.executing job token (.unfencing "job worker lease ownership changed"))
  | .failing reason =>
    if (d.jobs.get? job.jobId).any fun current =>
        current.status = .running && current.leaseToken = some token then
      some (.executing job token
        (.ending (.finish job.jobId token .failed none (some reason))))
    else some .idle
  | _ => none

def authorityMessage : String := "actor is inactive or no longer holds the required permission"

def Resume.cancelled (job : Job) (token : String) : Resume → Point
  | .item _ _ =>
    if job.kind.handler = .replay then .handling
    else .ending (.finish job.jobId token .cancelled none none)
  | _ => .ending (.finish job.jobId token .cancelled none none)

def checkpointRead (d : Registry) (job : Job) (token : String) (authority : Bool) (k : Resume) :
    Point :=
  match d.jobs.get? job.jobId with
  | none => .failing "job worker lease ownership changed"
  | some current =>
    if current.status ≠ .running ∨ current.leaseToken ≠ some token then
      .failing "job worker lease ownership changed"
    else if current.cancelRequested then k.cancelled job token
    else if authority then .renewing k
    else .ending (.finish job.jobId token .failed none (some authorityMessage))

def Point.start (kind : JobKind) : Point → Option (String × Point)
  | .ready ref rest => some (ref, .effect ref rest)
  | .primed _ => some (kind.itemRef, .running)
  | _ => none

/-! ### The machine -/

inductive RunnerEvent where
  /-- A request, a reconciler, or the heartbeat of some runner. -/
  | outside (op : Op) (env : Env)
  | claim (c : Nat) (owner : String) (env : Env) (seen : Bool)
  | release (c : Nat) (env : Env)
  | execute (c : Nat)
  | checkpoint (c : Nat) (authority : Bool)
  /-- The store call of the point; with a reason if it is written but raises. -/
  | call (c : Nat) (env : Env) (unseen : Option String)
  | raise (c : Nat) (reason : String)
  | advance (c : Nat)
  | divert (c : Nat) (reason : String)
  | start (c : Nat)
  | returned (c : Nat) (r : Report)
  /-- A call of a handler that is not followed. -/
  | handle (c : Nat) (op : Op) (env : Env)
  | lost (c : Nat)

/-- The calls that are not made by an executing runner: those that name no lease, and the
renewals of the heartbeats. -/
def Op.outside : Op → Bool
  | .claimNext _ _ => false
  | .renew _ _ _ => true
  | op => op.lease.isNone

def Op.isRelease : Op → Bool
  | .releaseClaim _ _ => true
  | _ => false

/-- An attempt that is written, or refused; `none` if the environment rules it out. -/
def Runners.perform (s : Runners) (op : Op) (env : Env) :
    Option (Except JobError (Val × Document)) :=
  if op.admissible env s.doc then some (op.change env s.doc) else none

def Runners.setWorker (s : Runners) (c : Nat) (w : Worker) : Runners :=
  { s with worker := Function.update s.worker c w }

def Runners.write (s : Runners) : Except JobError (Val × Document) → Runners
  | .ok (_, doc) => { s with doc := doc }
  | .error _ => s

def Runners.claim (s : Runners) (c : Nat) (owner : String) (env : Env) (seen : Bool) :
    Option Runners := do
  let r ← s.perform (.claimNext owner runnerLeaseMillis) env
  match r with
  | .ok (.claimed (some (job, token)), doc) =>
    return if seen then { s with doc := doc }.setWorker c (.claimed job token)
      else { s with doc := doc }
  | r => return s.write r

def Runners.call (s : Runners) (c : Nat) (job : Job) (token : String) (p : Point) (env : Env)
    (unseen : Option String) : Option Runners := do
  let op ← p.call job token
  let r ← s.perform op env
  match r with
  | .ok (val, doc) =>
    match unseen with
    | none => return { s with doc := doc }.setWorker c (p.returned job token val)
    | some reason => return { s with doc := doc }.setWorker c (p.raised job token reason)
  | .error _ => return s.setWorker c (p.raised job token "job worker lease ownership changed")

def Runners.step (s : Runners) : RunnerEvent → Option Runners
  | .outside op env => if op.outside then (s.perform op env).map s.write else none
  | .claim c owner env seen =>
    match s.worker c with
    | .idle => s.claim c owner env seen
    | _ => none
  | .release c env =>
    match s.worker c with
    | .claimed job token =>
      (s.perform (.releaseClaim job.jobId token) env).map fun r => (s.write r).setWorker c .idle
    | _ => none
  | .execute c =>
    match s.worker c with
    | .claimed job token => some (s.setWorker c (.executing job token (.gate .handler)))
    | _ => none
  | .checkpoint c authority =>
    match s.worker c with
    | .executing job token (.gate k) =>
      some (s.setWorker c
        (.executing job token (checkpointRead s.doc.registry job token authority k)))
    | _ => none
  | .call c env unseen =>
    match s.worker c with
    | .executing job token p => s.call c job token p env unseen
    | _ => none
  | .raise c reason =>
    match s.worker c with
    | .executing job token p => some (s.setWorker c (p.raised job token reason))
    | _ => none
  | .advance c =>
    match s.worker c with
    | .executing job token p => (p.advance s.doc.registry job token).map (s.setWorker c)
    | _ => none
  | .divert c reason =>
    match s.worker c with
    | .executing job token p =>
      if job.kind.handler = .replay then
        (p.diverted job token reason).map fun p' => s.setWorker c (.executing job token p')
      else none
    | _ => none
  | .start c =>
    match s.worker c with
    | .executing job token p =>
      (p.start job.kind).map fun r =>
        { s.setWorker c (.executing job token r.2) with
          effects := s.effects ++ [(job.jobId, r.1)] }
    | _ => none
  | .returned c r =>
    match s.worker c with
    | .executing job token (.effect ref rest) =>
      some (s.setWorker c (.executing job token (.complete ref rest none)))
    | .executing job token .running =>
      some (s.setWorker c (.executing job token (.recording r)))
    | _ => none
  | .handle c op env =>
    match s.worker c with
    | .executing job token .handling =>
      if op.lease = some (job.jobId, token) ∧ op.isRelease = false then
        (s.perform op env).map s.write
      else none
    | _ => none
  | .lost c => some (s.setWorker c .idle)

def runnerMachine : Machine Runners RunnerEvent where
  start s := s = noRunners
  step := Runners.step

/-! ### The journal of a row -/

open Option

structure Quiet (j j' : Job) : Prop where
  status : j'.status = j.status
  states : j'.itemStates = j.itemStates
  token : j'.leaseToken = j.leaseToken
  started : j'.startedAt = j.startedAt

inductive JournalStep (env : Env) (d : Registry) (op : Op) (id : String) (j : Job) : Job → Prop
  | quiet {j' : Job} (h : Quiet j j') : JournalStep env d op id j j'
  | ended {j' : Job} (h : j'.status.terminal = true) : JournalStep env d op id j j'
  | claimed {owner : String} {leaseMillis : Nat} (hop : op = .claimNext owner leaseMillis)
      (hcand : j ∈ claimCandidates d env.nowMs) :
      JournalStep env d op id j (j.claim env owner leaseMillis)
  | released {token : String} (hop : op = .releaseClaim id token) (hholds : Holds d id token j) :
      JournalStep env d op id j j.releaseClaim
  | begun {token ref : String} (hop : op = .beginItem id token ref) (hholds : Holds d id token j) :
      JournalStep env d op id j (j.beginItem ref)
  | completed {token ref : String} {error : Option String}
      (hop : op = .completeItem id token ref error) (hholds : Holds d id token j) :
      JournalStep env d op id j (j.completeItem ref error)
  | ensured {token : String} {refs : List String} {unit : String}
      (hop : op = .ensureItems id token refs unit) (hholds : Holds d id token j) :
      JournalStep env d op id j (j.ensureItems refs unit)

variable {d : Registry} {env : Env} {j j' : Job} {op : Op} {ref id : String}

theorem RowStep.journal (h : RowStep env d op id j j') : JournalStep env d op id j j' := by
  cases h with
  | held hlease hholds hstep =>
    cases hstep with
    | released =>
      simp only [Op.lease, Option.some.injEq, Prod.mk.injEq] at hlease
      obtain ⟨rfl, rfl⟩ := hlease
      exact .released rfl hholds
    | begun =>
      simp only [Op.lease, Option.some.injEq, Prod.mk.injEq] at hlease
      obtain ⟨rfl, rfl⟩ := hlease
      exact .begun rfl hholds
    | completed =>
      simp only [Op.lease, Option.some.injEq, Prod.mk.injEq] at hlease
      obtain ⟨rfl, rfl⟩ := hlease
      exact .completed rfl hholds
    | ensured =>
      simp only [Op.lease, Option.some.injEq, Prod.mk.injEq] at hlease
      obtain ⟨rfl, rfl⟩ := hlease
      exact .ensured rfl hholds
    | finished hterm hended =>
      apply JournalStep.ended
      obtain ⟨compacted, hcompact, rfl⟩ := Job.finish_eq hended
      obtain ⟨params, -, rfl⟩ := Job.compactTerminal_eq hcompact
      exact hterm
    | reserved =>
      apply JournalStep.quiet
      unfold Job.reserveArtifact
      split <;> exact ⟨rfl, rfl, rfl, rfl⟩
    | cleared =>
      apply JournalStep.quiet
      unfold Job.clearPendingArtifact
      split <;> exact ⟨rfl, rfl, rfl, rfl⟩
    | _ => exact .quiet ⟨rfl, rfl, rfl, rfl⟩
  | claimed hop hcand => exact .claimed hop hcand
  | cancelled _ _ hnext _ =>
    rcases Job.requestCancel_eq hnext with ⟨-, compacted, hcompact, rfl⟩ | ⟨-, rfl⟩
    · obtain ⟨params, -, rfl⟩ := Job.compactTerminal_eq hcompact
      exact .ended rfl
    · apply JournalStep.quiet
      unfold Job.cancelAsked
      split <;> exact ⟨rfl, rfl, rfl, rfl⟩
  | stopped _ _ _ hnext =>
    rcases Job.stopForFence_eq hnext with ⟨-, compacted, hcompact, rfl⟩ | ⟨-, rfl⟩
    · obtain ⟨params, -, rfl⟩ := Job.compactTerminal_eq hcompact
      exact .ended rfl
    · exact .quiet ⟨rfl, rfl, rfl, rfl⟩
  | _ => exact .quiet ⟨rfl, rfl, rfl, rfl⟩

def NoProcessing (states : Dict String ItemState) : Prop :=
  ∀ ref, states.get? ref ≠ some .processing

def Begun (states : Dict String ItemState) (ref : String) : Prop :=
  states.get? ref ≠ none ∧ states.get? ref ≠ some .pending

namespace Job

theorem recoverItems_states (j : Job) :
    j.recoverItems.itemStates = j.itemStates.mapValues fun _ st =>
      if st = .processing then (if j.kind.retrySafe then .pending else .failed) else st := by
  unfold recoverItems
  by_cases hsafe : j.kind.retrySafe = true
  · simp only [hsafe, if_true]
  · rw [if_neg hsafe]
    simp only [hsafe, Bool.false_eq_true, if_false]
    exact foldl_appendFailure (P := fun j' => j'.itemStates = _) interruptedReason
      (fun _ _ h => h) j.ambiguous rfl

theorem claim_journal (j : Job) (env : Env) (owner : String) (leaseMillis : Nat) :
    (j.claim env owner leaseMillis).status = .running ∧
      (j.claim env owner leaseMillis).startedAt.isSome = true ∧
      ((j.claim env owner leaseMillis).itemStates = j.itemStates ∧
          (j.status = .running → j.startedAt = none) ∨
        (j.claim env owner leaseMillis).itemStates = j.recoverItems.itemStates) := by
  have hrec : ∀ k : Job, (k.recoverItems.recount.transition "resumed"
      "expired worker lease recovered").status = k.status ∧
      (k.recoverItems.recount.transition "resumed"
        "expired worker lease recovered").startedAt = k.startedAt := by
    intro k
    have hfold : k.recoverItems.status = k.status ∧ k.recoverItems.startedAt = k.startedAt := by
      unfold recoverItems
      split
      · exact ⟨rfl, rfl⟩
      · exact foldl_appendFailure
          (P := fun j' => j'.status = k.status ∧ j'.startedAt = k.startedAt)
          interruptedReason (fun _ _ h => h) k.ambiguous ⟨rfl, rfl⟩
    exact hfold
  unfold claim
  by_cases hstart : j.startedAt.isNone = true
  · simp only [hstart, if_true]
    exact ⟨rfl, rfl, .inl ⟨rfl, fun _ => isNone_iff_eq_none.mp hstart⟩⟩
  · have hsome : j.startedAt.isSome = true := by
      cases hj : j.startedAt with
      | none => simp [hj] at hstart
      | some t => rfl
    simp only [hstart, Bool.false_eq_true, if_false]
    split
    · refine ⟨?_, ?_, .inr ?_⟩
      · rw [(hrec _).1]
        split <;> rfl
      · rw [(hrec _).2]
        split <;> exact hsome
      · change (recoverItems _).itemStates = _
        rw [recoverItems_states, recoverItems_states]
        split <;> rfl
    · next hnot => exact ⟨rfl, hsome, .inl ⟨rfl, fun hr => absurd hr hnot⟩⟩

theorem beginItem_states (j : Job) (ref ref' : String) :
    (j.beginItem ref).itemStates.get? ref' =
      if ref' = ref ∧ j.itemStates.get? ref = some .pending then some .processing
      else j.itemStates.get? ref' := by
  unfold beginItem
  by_cases hp : j.itemStates.get? ref = some .pending
  · rw [if_pos hp]
    simp [Dict.get?_set, hp]
  · rw [if_neg hp, if_neg fun h => hp h.2]

theorem completeItem_states (j : Job) (ref : String) (error : Option String) (ref' : String) :
    (j.completeItem ref error).itemStates.get? ref' = j.itemStates.get? ref' ∨
      ref' = ref ∧ ((j.completeItem ref error).itemStates.get? ref' = some .succeeded ∨
        (j.completeItem ref error).itemStates.get? ref' = some .failed) := by
  unfold completeItem
  split
  · exact .inl rfl
  · exact .inl rfl
  · split
    · by_cases hid : ref' = ref
      · right
        refine ⟨hid, .inl ?_⟩
        change (j.itemStates.set ref .succeeded).get? ref' = _
        rw [Dict.get?_set, if_pos hid]
      · left
        change (j.itemStates.set ref .succeeded).get? ref' = _
        rw [Dict.get?_set, if_neg hid]
    · by_cases hid : ref' = ref
      · right
        refine ⟨hid, .inr ?_⟩
        change (j.itemStates.set ref .failed).get? ref' = _
        rw [Dict.get?_set, if_pos hid]
      · left
        change (j.itemStates.set ref .failed).get? ref' = _
        rw [Dict.get?_set, if_neg hid]

theorem ensureItems_states (j : Job) (refs : List String) (unit ref : String) :
    j.itemStates.get? ref ≠ none →
      (j.ensureItems refs unit).itemStates.get? ref = j.itemStates.get? ref := by
  intro hsome
  change (refs.foldl _ j.itemStates).get? ref = _
  have hfold : ∀ states : Dict String ItemState, states.get? ref = j.itemStates.get? ref →
      (refs.foldl (fun states itemRef =>
        let ref := sliceTo 200 itemRef
        if ref = "" then states else states.setDefault ref .pending) states).get? ref =
        j.itemStates.get? ref := by
    induction refs with
    | nil => exact fun states h => h
    | cons r rs ih =>
      intro states h
      apply ih
      simp only
      split
      · exact h
      · rw [Dict.get?_setDefault]
        split
        · next hr =>
            rw [← hr, h]
            cases hget : j.itemStates.get? ref with
            | none => exact absurd hget hsome
            | some st => rfl
        · exact h
  exact hfold j.itemStates rfl

end Job

/-! ### Rows of the followed kinds -/

structure RowFit (j : Job) : Prop where
  queued : j.status = .queued → NoProcessing j.itemStates
  started : j.status = .running → j.startedAt.isSome = true
  item : ∀ ref, j.kind.handler = .single ref → j.itemStates.get? ref ≠ none
  unique : j.kind.handler = .replay → (fixtureIds j.params).Nodup
  fixtures : j.kind.handler = .replay → ∀ ref ∈ fixtureIds j.params, j.itemStates.get? ref ≠ none

def Fit (j : Job) : Prop := j.kind.handler ≠ .other → j.status.terminal = false → RowFit j

theorem followed_iff {kind : JobKind} : kind.handler ≠ .other ↔ kind.retrySafe = false := by
  cases kind <;> decide

theorem active_of_candidate {nowMs : Nat}
    (h : j ∈ claimCandidates d nowMs) : j.status = .queued ∨ j.status = .running := by
  have hclaim := (List.mem_filter.mp h).2
  simp only [Job.claimable, Bool.and_eq_true, Bool.or_eq_true, decide_eq_true_eq] at hclaim
  exact hclaim.2.imp (fun h => h) fun h => h.1

/-- **A claim leaves nothing in processing**: what a lost runner was working on has failed. -/
theorem claim_settles (env : Env) (owner : String) (leaseMillis : Nat)
    (hkind : j.kind.handler ≠ .other) (hfit : RowFit j)
    (hactive : j.status = .queued ∨ j.status = .running) :
    NoProcessing (j.claim env owner leaseMillis).itemStates ∧
      (∀ ref, j.itemStates.get? ref ≠ none →
        (j.claim env owner leaseMillis).itemStates.get? ref ≠ none) ∧
      ∀ ref, Begun j.itemStates ref → Begun (j.claim env owner leaseMillis).itemStates ref := by
  obtain ⟨-, -, ⟨hsame, hfirst⟩ | hrecovered⟩ := Job.claim_journal j env owner leaseMillis
  · rw [hsame]
    refine ⟨?_, fun ref h => h, fun ref h => h⟩
    rcases hactive with hq | hr
    · exact hfit.queued hq
    · have hsome := hfit.started hr
      rw [hfirst hr] at hsome
      cases hsome
  · have hget : ∀ ref, (j.claim env owner leaseMillis).itemStates.get? ref =
        (j.itemStates.get? ref).map fun st => if st = .processing then .failed else st := by
      intro ref
      rw [hrecovered, Job.recoverItems_states, Dict.get?_mapValues]
      simp only [followed_iff.mp hkind, Bool.false_eq_true, if_false]
    refine ⟨?_, ?_, ?_⟩
    · intro ref hproc
      rw [hget ref, map_eq_some_iff] at hproc
      obtain ⟨st, -, hst⟩ := hproc
      split at hst
      · cases hst
      · next hne => exact hne hst
    · intro ref hsome hnone
      rw [hget ref, map_eq_none_iff] at hnone
      exact hsome hnone
    · intro ref hbegun
      constructor
      · intro hnone
        rw [hget ref, map_eq_none_iff] at hnone
        exact hbegun.1 hnone
      · intro hpending
        rw [hget ref, map_eq_some_iff] at hpending
        obtain ⟨st, hst, heq⟩ := hpending
        split at heq
        · cases heq
        · exact hbegun.2 (heq ▸ hst)

theorem Job.beginItem_frame (j : Job) (ref : String) :
    (j.beginItem ref).status = j.status ∧ (j.beginItem ref).startedAt = j.startedAt ∧
      (j.beginItem ref).leaseToken = j.leaseToken := by
  unfold Job.beginItem
  split <;> exact ⟨rfl, rfl, rfl⟩

theorem Job.completeItem_frame (j : Job) (ref : String) (error : Option String) :
    (j.completeItem ref error).status = j.status ∧
      (j.completeItem ref error).startedAt = j.startedAt ∧
      (j.completeItem ref error).leaseToken = j.leaseToken := by
  unfold Job.completeItem
  split
  · exact ⟨rfl, rfl, rfl⟩
  · exact ⟨rfl, rfl, rfl⟩
  · split <;> exact ⟨rfl, rfl, rfl⟩

theorem JournalStep.present (h : JournalStep env d op id j j') (hkind : j.kind.handler ≠ .other)
    (hfit : Fit j) (hactive' : j'.status.terminal = false) (hsome : j.itemStates.get? ref ≠ none) :
    j'.itemStates.get? ref ≠ none := by
  cases h with
  | quiet hq =>
    rw [hq.states]
    exact hsome
  | ended hended =>
    rw [hended] at hactive'
    cases hactive'
  | claimed _ hcand =>
    have hactive := active_of_candidate hcand
    have hrow : RowFit j := hfit hkind (by rcases hactive with h | h <;> rw [h] <;> rfl)
    exact (claim_settles _ _ _ hkind hrow hactive).2.1 ref hsome
  | released => exact hsome
  | begun =>
    rw [Job.beginItem_states]
    split
    · exact some_ne_none _
    · exact hsome
  | completed =>
    rcases Job.completeItem_states j _ _ ref with hsame | ⟨-, hset | hset⟩
    · rw [hsame]
      exact hsome
    · rw [hset]
      exact some_ne_none _
    · rw [hset]
      exact some_ne_none _
  | ensured =>
    rw [Job.ensureItems_states j _ _ _ hsome]
    exact hsome

/-- **A begun item stays begun** for as long as the row is active. -/
theorem JournalStep.begunItem (h : JournalStep env d op id j j') (hkind : j.kind.handler ≠ .other)
    (hfit : Fit j) (hactive' : j'.status.terminal = false) (hbegun : Begun j.itemStates ref) :
    Begun j'.itemStates ref := by
  refine ⟨h.present hkind hfit hactive' hbegun.1, ?_⟩
  cases h with
  | quiet hq =>
    rw [hq.states]
    exact hbegun.2
  | ended hended =>
    rw [hended] at hactive'
    cases hactive'
  | claimed _ hcand =>
    have hactive := active_of_candidate hcand
    have hrow : RowFit j := hfit hkind (by rcases hactive with h | h <;> rw [h] <;> rfl)
    exact ((claim_settles _ _ _ hkind hrow hactive).2.2 ref hbegun).2
  | released => exact hbegun.2
  | begun =>
    rw [Job.beginItem_states]
    split
    · simp
    · exact hbegun.2
  | completed =>
    rcases Job.completeItem_states j _ _ ref with hsame | ⟨-, hset | hset⟩
    · rw [hsame]
      exact hbegun.2
    · rw [hset]
      simp
    · rw [hset]
      simp
  | ensured =>
    rw [Job.ensureItems_states j _ _ _ hbegun.1]
    exact hbegun.2

theorem JournalStep.fit (h : JournalStep env d op id j j') (hkind : j'.kind = j.kind)
    (hfit : Fit j) (hactive : j'.status.terminal = false → j.status.terminal = false)
    (hparams : j'.status.terminal = false → j'.params = j.params)
    (hrel : ∀ token, op = .releaseClaim id token → Holds d id token j →
      j.kind.handler ≠ .other → NoProcessing j.itemStates) : Fit j' := by
  intro hfollowed hactive'
  rw [hkind] at hfollowed
  have hrow := hfit hfollowed (hactive hactive')
  have hkept : ∀ ref, j.itemStates.get? ref ≠ none → j'.itemStates.get? ref ≠ none :=
    fun ref hsome => h.present hfollowed hfit hactive' hsome
  have hlife : (j'.status = .queued → NoProcessing j'.itemStates) ∧
      (j'.status = .running → j'.startedAt.isSome = true) := by
    cases h with
    | quiet hq =>
      rw [hq.status, hq.states, hq.started]
      exact ⟨hrow.queued, hrow.started⟩
    | ended hended =>
      rw [hended] at hactive'
      cases hactive'
    | claimed _ hcand =>
      obtain ⟨hstatus, hstarted, -⟩ := Job.claim_journal j env _ _
      refine ⟨?_, fun _ => hstarted⟩
      rw [hstatus]
      intro hq
      cases hq
    | released hop hholds =>
      refine ⟨fun _ => hrel _ hop hholds hfollowed, ?_⟩
      intro hr
      cases hr
    | begun hop hholds =>
      obtain ⟨hstatus, hstarted, -⟩ := Job.beginItem_frame j _
      rw [hstatus, hstarted, hholds.running]
      refine ⟨?_, fun _ => hrow.started hholds.running⟩
      intro hq
      cases hq
    | completed hop hholds =>
      obtain ⟨hstatus, hstarted, -⟩ := Job.completeItem_frame j _ _
      rw [hstatus, hstarted, hholds.running]
      refine ⟨?_, fun _ => hrow.started hholds.running⟩
      intro hq
      cases hq
    | ensured hop hholds =>
      refine ⟨?_, fun _ => hrow.started hholds.running⟩
      intro hq
      exact absurd (hholds.running.symm.trans hq) (by decide)
  constructor
  · exact hlife.1
  · exact hlife.2
  · intro ref href
    rw [hkind] at href
    exact hkept ref (hrow.item ref href)
  · rw [hkind, hparams hactive']
    exact hrow.unique
  · rw [hkind, hparams hactive']
    exact fun hreplay ref href => hkept ref (hrow.fixtures hreplay ref href)

def Op.writer : Op → Option (String × String)
  | .beginItem jobId token _ | .completeItem jobId token _ _ | .ensureItems jobId token _ _ =>
    some (jobId, token)
  | _ => none

/-- A row still held under a token was held under it before, and only the holder changed
its journal. -/
theorem JournalStep.held {token : String} (h : JournalStep env d op id j j')
    (hdrawn : token ∉ op.draws env) (hrunning : j'.status = .running)
    (htoken : j'.leaseToken = some token) : j.status = .running ∧ j.leaseToken = some token ∧
      (op.writer = some (id, token) ∨ j'.itemStates = j.itemStates) := by
  cases h with
  | quiet hq =>
    rw [hq.status] at hrunning
    rw [hq.token] at htoken
    exact ⟨hrunning, htoken, .inr hq.states⟩
  | ended hended =>
    rw [hrunning] at hended
    cases hended
  | claimed hop _ =>
    exfalso
    subst hop
    rw [(Job.claim_holdings j env _ _).1] at htoken
    exact hdrawn (by simp [Op.draws, Option.some.inj htoken])
  | released => cases htoken
  | begun hop hholds =>
    rw [(Job.beginItem_frame j _).2.2] at htoken
    refine ⟨hholds.running, htoken, .inl ?_⟩
    rw [hop, ← Option.some.inj (hholds.token.symm.trans htoken)]
    rfl
  | completed hop hholds =>
    rw [(Job.completeItem_frame j _ _).2.2] at htoken
    refine ⟨hholds.running, htoken, .inl ?_⟩
    rw [hop, ← Option.some.inj (hholds.token.symm.trans htoken)]
    rfl
  | ensured hop hholds =>
    refine ⟨hholds.running, htoken, .inl ?_⟩
    rw [hop, ← Option.some.inj (hholds.token.symm.trans htoken)]
    rfl

theorem itemStates_of_submission (s : Submission) {st : ItemState}
    (h : s.job.itemStates.get? ref = some st) : st = .pending := by
  have hmem := Dict.mem_of_get?_ofList h
  rw [List.mem_map] at hmem
  obtain ⟨_, -, hentry⟩ := hmem
  exact (Prod.mk.inj hentry).2.symm

theorem present_of_submission (s : Submission)
    (h : ref ∈ (itemRefs s.kind s.params).1) : s.job.itemStates.get? ref ≠ none := by
  intro hnone
  have hkeys := Dict.get?_eq_none_iff.mp hnone
  exact hkeys (Dict.mem_keys_ofList (List.mem_map.mpr
    ⟨(ref, .pending), List.mem_map.mpr ⟨ref, h, rfl⟩, rfl⟩))

variable {s : Submission}

theorem cases_of_checked (h : s.paramsChecked = true)
    (hkind : s.kind = .tieredReset ∨ s.kind = .storageLifecycleApply ∨ s.kind = .replayExperiment) :
    s.params.get? "case_ids" = none := by
  unfold Submission.paramsChecked at h
  rcases hkind with hk | hk | hk
  · simp only [hk, Bool.or_eq_true, decide_eq_true_eq] at h
    rcases h with (hp | hp) | hp <;> rw [hp] <;> decide
  · simp only [hk] at h
    exact isNone_iff_eq_none.mp h
  · simp only [hk, Bool.and_eq_true] at h
    exact isNone_iff_eq_none.mp h.1

theorem fit_of_submission (hacc : s.accepted = true) : Fit s.job := by
  intro _ _
  simp only [Submission.accepted, Bool.and_eq_true] at hacc
  have hchecked := hacc.2
  constructor
  · intro _ ref hproc
    cases itemStates_of_submission s hproc
  · intro hr
    cases hr
  · intro ref href
    change s.kind.handler = .single ref at href
    apply present_of_submission
    cases hk : s.kind with
    | tieredReset =>
      rw [hk] at href
      obtain rfl := Handler.single.inj href
      unfold itemRefs
      rw [cases_of_checked hchecked (.inl hk)]
      exact List.mem_singleton_self _
    | storageLifecycleApply =>
      rw [hk] at href
      obtain rfl := Handler.single.inj href
      unfold itemRefs
      rw [cases_of_checked hchecked (.inr (.inl hk))]
      exact List.mem_singleton_self _
    | _ =>
      rw [hk] at href
      cases href
  · intro hreplay
    change s.kind.handler = .replay at hreplay
    cases hk : s.kind with
    | replayExperiment =>
      simp only [Submission.paramsChecked, hk, Bool.and_eq_true, decide_eq_true_eq] at hchecked
      exact hchecked.2
    | _ =>
      rw [hk] at hreplay
      cases hreplay
  · intro hreplay ref href
    change s.kind.handler = .replay at hreplay
    apply present_of_submission
    cases hk : s.kind with
    | replayExperiment =>
      unfold itemRefs
      rw [cases_of_checked hchecked (.inr (.inr hk))]
      exact href
    | _ =>
      rw [hk] at hreplay
      cases hreplay

end AgenticKibana.Jobs
