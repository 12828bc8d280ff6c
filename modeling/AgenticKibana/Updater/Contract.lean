import AgenticKibana.Updater.Service

/-!
# The update supervisor, its job records, and what its threads owe each other

The threads are the API calls and the workers.  A request may arrive, the process may be killed at
any point, and a new process may start: it repairs the index from the records
(`_repair_idempotency_bindings`), clears the marker of a terminal job and launches the active jobs
(`resume`), or is killed in between.  While no process runs, the index file may be lost.  The API
writes four fields of a record that a worker holds, so the two are compared on the rest, the
`core`.

One part of the invariant (`Inv`) holds only of runs without the defect of the launching code
(`LaunchesActive`).
-/

namespace AgenticKibana.Updater

open AgenticKibana.Library

/-- `bind` of `_repair_idempotency_bindings`: `none` on a conflict. -/
def bindKey {β : Type} [DecidableEq β] (keys : Dict Key β) (key : Key) (value : β) :
    Option (Dict Key β) :=
  match keys.get? key with
  | some existing => if existing = value then some keys else none
  | none => some (keys.set key value)

def bindAll {β : Type} [DecidableEq β] : List (Key × β) → Dict Key β → Option (Dict Key β)
  | [], keys => some keys
  | (key, value) :: rest, keys => (bindKey keys key value).bind (bindAll rest)

def startBinding (job : Job) : List (Key × JobId) :=
  match job.startIdempotencyKey with
  | some key => if key = "" then [] else [(key, job.jobId)]
  | none => []

/-- `_repair_idempotency_bindings`. -/
def repairBindings (s : World) : Option Index := do
  let preflights ← bindAll
    (s.preflights.entries.filterMap fun (token, preflight) =>
      if preflight.idempotencyKey = "" || token = "" then none
      else some (preflight.idempotencyKey, token)) s.index.preflights
  let jobs ← bindAll (s.listJobs.flatMap startBinding) s.index.jobs
  let operations ←
    bindAll (s.listJobs.flatMap fun job => job.operationIdempotency.entries) s.index.operations
  some ⟨preflights, jobs, operations⟩

/-- `reconcile_terminal_lifecycle`: clear the marker of a job that is terminal. -/
def World.reconcile (s : World) : World :=
  match s.marker with
  | some id =>
    if (s.jobs.get? id).any fun job => job.status.terminal then { s with marker := none } else s
  | none => s

/-- The launches of `resume`, the first thread numbered `fresh`. -/
def launchActive : Nat → List Job → World → World × List Name
  | _, [], s => (s, [])
  | fresh, job :: jobs, s =>
    if job.status.active then
      let rollbackOnly := decide (job.status = .rollingBack)
      let (t, names) :=
        launchActive (fresh + 1) jobs (s.register fresh job.jobId rollbackOnly)
      (t, .worker job.jobId rollbackOnly :: names)
    else launchActive fresh jobs s

def World.crash (s : World) : World :=
  { s with up := false, lock := none, lifecycle := none, workers := Dict.empty, reserving := none }

inductive Event where
  | call (request : Request)
  | crash
  | resume
  | resumeInterrupted
  | loseIndex
  | preflight (token : Token) (record : Preflight)

def outside (fresh : Nat) (e : Event) (s : World) : Option (World × List Name × Bool) :=
  match e with
  | .call request => if s.up then some (s, [.call request], false) else none
  | .crash => some (s.crash, [], true)
  | .resume =>
    if s.up then none
    else
      (repairBindings s).map fun index =>
        let (t, names) := launchActive fresh s.listJobs
          ({ s.crash with index := index, up := true }.reconcile)
        (t, names, true)
  | .resumeInterrupted =>
    if s.up then none
    else (repairBindings s).map fun index => ({ s with index := index }, [], true)
  | .loseIndex => if s.up then none else some ({ s with index := Index.empty }, [], true)
  | .preflight token record =>
    some ({ s with preflights := s.preflights.set token record }, [], false)

def retire (τ : Nat) (n : Name) (result : Except Failure (Option Job)) (s : World) : World :=
  match n, result with
  | .call request, .ok (some job) => s.record (.accepted request job)
  | .call _, _ => s
  | .worker id _, _ =>
    if (s.workers.get? id).any fun worker => worker.thread = τ then
      { s with workers := s.workers.erase id }
    else s

def program : Name → Code Act.Reply Failure (Option Job)
  | .call (.start body) => Routine.main (Service.start body) () some
  | .call (.cancel job key) => Routine.main (Service.cancel job key) () some
  | .call (.rollback job key) => Routine.main (Service.requestRollback job key) () some
  | .worker job false => Routine.main (Service.worker job) default fun _ => none
  | .worker job true => Routine.main (Service.rollbackWorker job) default fun _ => none

/-- `UpdateService` and its threads. -/
def updater : Threads Act.Reply Name Failure (Option Job) Answer Event World where
  code := program
  perform := effect
  retire := retire
  outside := outside

def World.fresh : World where
  jobs := Dict.empty
  index := Index.empty
  preflights := Dict.empty
  marker := none
  up := false
  lock := none
  lifecycle := none
  workers := Dict.empty
  reserving := none
  history := []

abbrev Supervisor : Type := Pool Act.Reply Name Failure (Option Job) World

def supervisor : Machine Supervisor (Turn Answer Event) := updater.machine (· = World.fresh)

/-! ### Job records -/

def Job.core (job : Job) : Job :=
  { job with
    cancelRequested := false
    message := ""
    updatedAt := 0
    operationIdempotency := Dict.empty }

/-- Every operation key of `a` is bound in `b`, to the same operation. -/
def KeysWithin (a b : Job) : Prop :=
  ∀ k v, a.operationIdempotency.get? k = some v → b.operationIdempotency.get? k = some v

theorem KeysWithin.refl (a : Job) : KeysWithin a a := fun _ _ h => h

theorem KeysWithin.trans {a b c : Job} (hab : KeysWithin a b) (hbc : KeysWithin b c) :
    KeysWithin a c :=
  fun k v h => hbc k v (hab k v h)

structure Sound (job : Job) : Prop where
  handoff : job.stage.afterHandoff = true →
    job.status = .running ∧ job.snapshot.isSome = true ∧ job.overrideStarted = true
  quiesced : job.quiesced = true → job.quiescedAt.isSome = true
  backup : ∀ b, job.backup = some b → b.writerQuiesced = true ∧ job.quiesced = true
  switched : job.switchStarted = true →
    job.snapshot.isSome = true ∧ job.overrideStarted = true ∧ job.backup.isSome = true
  succeeded : job.status = .succeeded → job.switchStarted = true

structure Valid (job : Job) : Prop where
  sound : Sound job
  cancelled : job.cancelRequested = true → job.switchStarted = false

theorem Sound.of_core {a b : Job} (h : a.core = b.core) (ha : Sound a) : Sound b := by
  have hstage : a.stage = b.stage := (congrArg Job.stage h :)
  have hstatus : a.status = b.status := (congrArg Job.status h :)
  have hsnapshot : a.snapshot = b.snapshot := (congrArg Job.snapshot h :)
  have hoverride : a.overrideStarted = b.overrideStarted := (congrArg Job.overrideStarted h :)
  have hquiesced : a.quiesced = b.quiesced := (congrArg Job.quiesced h :)
  have hat : a.quiescedAt = b.quiescedAt := (congrArg Job.quiescedAt h :)
  have hbackup : a.backup = b.backup := (congrArg Job.backup h :)
  have hswitch : a.switchStarted = b.switchStarted := (congrArg Job.switchStarted h :)
  constructor
  · rw [← hstage, ← hstatus, ← hsnapshot, ← hoverride]
    exact ha.handoff
  · rw [← hquiesced, ← hat]
    exact ha.quiesced
  · rw [← hbackup, ← hquiesced]
    exact ha.backup
  · rw [← hswitch, ← hsnapshot, ← hoverride, ← hbackup]
    exact ha.switched
  · rw [← hstatus, ← hswitch]
    exact ha.succeeded

section

variable {job : Job}

theorem Sound.staged (h : Sound job) {stage : Stage} {status : Status}
    (hstage : stage.afterHandoff = true →
      status = .running ∧ job.snapshot.isSome = true ∧ job.overrideStarted = true)
    (hstatus : status = .succeeded → job.switchStarted = true) (message : String) (now : Time) :
    Sound (Service.Staged job stage message status now) where
  handoff := hstage
  quiesced := h.quiesced
  backup := h.backup
  switched := h.switched
  succeeded := hstatus

theorem sound_queued (id : JobId) (release : Release) (plan : Option Plan) (key : Key)
    (a b : Time) : Sound (Job.queued id release plan key a b) := by
  constructor <;> simp [Job.queued, Stage.afterHandoff]

/-! ### The life of a record -/

structure Grows (r r' : Job) : Prop where
  jobId : r'.jobId = r.jobId
  release : r'.release = r.release
  startKey : r'.startIdempotencyKey = r.startIdempotencyKey
  cancelled : r.cancelRequested = true → r'.cancelRequested = true
  switched : r.switchStarted = true → r'.switchStarted = true

theorem Grows.refl (r : Job) : Grows r r := ⟨rfl, rfl, rfl, id, id⟩

variable {r r' r'' : Job}

theorem Grows.trans (h : Grows r r') (h' : Grows r' r'') : Grows r r'' where
  jobId := h'.jobId.trans h.jobId
  release := h'.release.trans h.release
  startKey := h'.startKey.trans h.startKey
  cancelled := fun hc => h'.cancelled (h.cancelled hc)
  switched := fun hs => h'.switched (h.switched hs)

/-- What the API does to a record while a worker is registered for it: unless the record
is a success, its core stays. -/
structure Touched (r r' : Job) : Prop where
  switched : r'.switchStarted = r.switchStarted
  cancelled : r.cancelRequested = true → r'.cancelRequested = true
  keys : KeysWithin r r'
  core : r.status ≠ .succeeded → r'.core = r.core

theorem Touched.refl (r : Job) : Touched r r :=
  ⟨rfl, id, KeysWithin.refl r, fun _ => rfl⟩

theorem Touched.trans (h : Touched r r') (h' : Touched r' r'') : Touched r r'' := by
  have hstatus : r.status ≠ .succeeded → r'.status ≠ .succeeded := by
    intro hs hs'
    have hsame : r'.status = r.status := (congrArg Job.status (h.core hs) :)
    exact hs (hsame ▸ hs')
  refine ⟨h'.switched.trans h.switched, fun hc => h'.cancelled (h.cancelled hc),
    h.keys.trans h'.keys, ?_⟩
  intro hs
  exact (h'.core (hstatus hs)).trans (h.core hs)

theorem Touched.status (h : Touched r r') (hs : r.status ≠ .succeeded) : r'.status = r.status :=
  (congrArg Job.status (h.core hs) :)

/-- The copy and the record agree on what no worker changes, and the copy knows of no
cancellation or key the record lacks. -/
structure Agrees (job r : Job) : Prop where
  jobId : r.jobId = job.jobId
  release : r.release = job.release
  startKey : r.startIdempotencyKey = job.startIdempotencyKey
  switched : r.switchStarted = job.switchStarted
  cancelled : job.cancelRequested = true → r.cancelRequested = true
  keys : KeysWithin job r

theorem Agrees.refl (r : Job) : Agrees r r :=
  ⟨rfl, rfl, rfl, rfl, id, KeysWithin.refl r⟩

theorem Agrees.touched (h : Agrees job r) (hg : Grows r r') (ht : Touched r r') :
    Agrees job r' where
  jobId := hg.jobId.trans h.jobId
  release := hg.release.trans h.release
  startKey := hg.startKey.trans h.startKey
  switched := ht.switched.trans h.switched
  cancelled := fun hc => hg.cancelled (h.cancelled hc)
  keys := h.keys.trans ht.keys

theorem Agrees.merged (h : Agrees job r) :
    Grows r (Service.Merged job (some r)) ∧ Agrees (Service.Merged job (some r))
      (Service.Merged job (some r)) := by
  refine ⟨⟨h.jobId.symm, h.release.symm, h.startKey.symm, ?_, ?_⟩, Agrees.refl _⟩
  · intro hc
    simp [Service.Merged, hc]
  · intro hs
    show job.switchStarted = true
    rw [← h.switched, hs]

theorem valid_merged (h : Agrees job r) (hr : Valid r) (hjob : Sound job) :
    Valid (Service.Merged job (some r)) := by
  refine ⟨Sound.of_core (a := job) rfl hjob, ?_⟩
  intro hc
  have hcr : r.cancelRequested = true := by
    simp only [Service.Merged, Option.any_some, Bool.or_eq_true] at hc
    exact hc.elim h.cancelled id
  exact h.switched ▸ hr.cancelled hcr

theorem core_update {current : Job} (h : job.core = current.core) :
    (job.update current).core = current.core := by
  simp only [Job.core, Job.mk.injEq] at h
  simp [Job.core, Job.update, h]

end

open List

/-! ### What the history says -/

def LaunchesActive (h : List Entry) : Prop :=
  ∀ id mode record, Entry.launched id mode record ∈ h →
    record.any (fun r => r.status.active) = true

def Quiesced (h : List Entry) (id : JobId) : Prop :=
  ∃ τ, Entry.host τ id .quiesceBackend true ∈ h

def BackedUp (h : List Entry) (id : JobId) : Prop :=
  ∃ before after τ, h = before ++ .host τ id (.backupPostgres id) true :: after ∧
    Quiesced before id

structure Backed (h : List Entry) (id : JobId) (r : Job) : Prop where
  quiesced : r.quiesced = true → Quiesced h id
  backup : r.backup.isSome = true → BackedUp h id

variable {h h' : List Entry}

theorem LaunchesActive.of_append (hl : LaunchesActive (h ++ h')) :
    LaunchesActive h :=
  fun id mode record hm => hl id mode record (mem_append_left _ hm)

variable {id : JobId}

theorem Quiesced.append (hq : Quiesced h id) (h' : List Entry) : Quiesced (h ++ h') id := by
  obtain ⟨τ, hm⟩ := hq
  exact ⟨τ, mem_append_left _ hm⟩

theorem BackedUp.append (hb : BackedUp h id) (h' : List Entry) : BackedUp (h ++ h') id := by
  obtain ⟨before, after, τ, rfl, hq⟩ := hb
  exact ⟨before, after ++ h', τ, by simp, hq⟩

theorem Backed.append {r : Job} (hb : Backed h id r) (h' : List Entry) : Backed (h ++ h') id r :=
  ⟨fun hq => (hb.quiesced hq).append h', fun hs => (hb.backup hs).append h'⟩

def savesOf (τ : Nat) (h : List Entry) : List Job :=
  h.filterMap fun
    | .saved τ' _ after => if τ' = τ then some after else none
    | _ => none

def rollbacksOf (τ : Nat) (h : List Entry) : List (Snapshot × Bool) :=
  h.filterMap fun
    | .host τ' _ (.rollback snapshot _ restore) _ =>
        if τ' = τ then some (snapshot, restore) else none
    | _ => none

def failuresOf (τ : Nat) (h : List Entry) : List HostCall :=
  h.filterMap fun
    | .host τ' _ call false => if τ' = τ then some call else none
    | _ => none

structure Unclaimed (id : JobId) (s : World) : Prop where
  guard : s.lifecycle ≠ some id
  worker : s.workers.get? id = none

/-- What the other threads may do while thread `τ` does nothing. -/
structure Rely (τ : Nat) (s s' : World) : Prop where
  up : s.up = true → s'.up = true
  /-- Whoever holds the store lock finds the ledger as it left it. -/
  lock : s.lock = some τ → s'.lock = some τ ∧ s'.jobs = s.jobs ∧ s'.index = s.index ∧
    s'.reserving = s.reserving ∧ ∀ id, s.reserving = some id → Unclaimed id s → Unclaimed id s'
  /-- Records stay, and grow. -/
  record : ∀ id r, s.jobs.get? id = some r →
    (∃ r', s'.jobs.get? id = some r' ∧ Grows r r') ∧
      (s.reserving ≠ some id → s'.reserving ≠ some id)
  /-- A registered worker stays registered, its record is touched by the API at most, and
  nobody releases its lifecycle guard. -/
  worker : ∀ id mode, s.workers.get? id = some ⟨τ, mode⟩ →
    s'.workers.get? id = some ⟨τ, mode⟩ ∧
    (∀ r, s.jobs.get? id = some r → ∃ r', s'.jobs.get? id = some r' ∧ Touched r r') ∧
    (s.lifecycle = some id → s'.lifecycle = some id)
  /-- The history grows by what others do. -/
  history : ∃ h, s'.history = s.history ++ h ∧ ∀ e ∈ h, e.by ≠ some τ

theorem Rely.refl (τ : Nat) (s : World) : Rely τ s s where
  up := id
  lock := fun h => ⟨h, rfl, rfl, rfl, fun _ _ h => h⟩
  record := fun _ r h => ⟨⟨r, h, Grows.refl r⟩, id⟩
  worker := fun _ _ h => ⟨h, fun r hr => ⟨r, hr, Touched.refl r⟩, id⟩
  history := ⟨[], by simp⟩

theorem Rely.trans (τ : Nat) (s t u : World) (h : Rely τ s t) (h' : Rely τ t u) : Rely τ s u where
  up := fun hu => h'.up (h.up hu)
  lock := by
    intro hl
    obtain ⟨hl, hjobs, hindex, hres, hguard⟩ := h.lock hl
    obtain ⟨hl', hjobs', hindex', hres', hguard'⟩ := h'.lock hl
    refine ⟨hl', hjobs'.trans hjobs, hindex'.trans hindex, hres'.trans hres, ?_⟩
    intro id hid hun
    exact hguard' id (hres.trans hid) (hguard id hid hun)
  record := by
    intro id r hr
    obtain ⟨⟨r1, hr1, hg1⟩, hres1⟩ := h.record id r hr
    obtain ⟨⟨r2, hr2, hg2⟩, hres2⟩ := h'.record id r1 hr1
    exact ⟨⟨r2, hr2, hg1.trans hg2⟩, fun hne => hres2 (hres1 hne)⟩
  worker := by
    intro id mode hw
    obtain ⟨hw1, hr1, hg1⟩ := h.worker id mode hw
    obtain ⟨hw2, hr2, hg2⟩ := h'.worker id mode hw1
    refine ⟨hw2, ?_, fun hl => hg2 (hg1 hl)⟩
    intro r hr
    obtain ⟨r1, hr1, ht1⟩ := hr1 r hr
    obtain ⟨r2, hr2, ht2⟩ := hr2 r1 hr1
    exact ⟨r2, hr2, ht1.trans ht2⟩
  history := by
    obtain ⟨h1, ht, hn1⟩ := h.history
    obtain ⟨h2, hu, hn2⟩ := h'.history
    refine ⟨h1 ++ h2, by rw [hu, ht, append_assoc], ?_⟩
    intro e he
    rcases mem_append.mp he with he | he
    · exact hn1 e he
    · exact hn2 e he

def Binding.job : Binding → JobId
  | .cancel id => id
  | .rollback id => id

def Answered (s : World) : Request → Job → Prop
  | .start body, r => ∃ r', s.jobs.get? r.jobId = some r' ∧
      r'.startIdempotencyKey = some body.key ∧ body.release = some r'.release
  | .cancel id _, r => ∃ r', s.jobs.get? id = some r' ∧
      (r.cancelRequested = true → r'.cancelRequested = true)
  | .rollback id _, _ => ∃ r', s.jobs.get? id = some r'

structure Inv (s : World) : Prop where
  ids : ∀ id r, s.jobs.get? id = some r → r.jobId = id
  valid : ∀ id r, s.jobs.get? id = some r → Valid r
  backed : ∀ id r, s.jobs.get? id = some r → Backed s.history id r
  /-- A host call that switches is of a job whose switch has started. -/
  switched : ∀ τ id call ok, Entry.host τ id call ok ∈ s.history → call.switches = true →
    ∃ r, s.jobs.get? id = some r ∧ r.switchStarted = true
  answered : ∀ request r, Entry.accepted request r ∈ s.history → Answered s request r
  /-- No two jobs carry one start key. -/
  startKeys : ∀ id r id' r' key, s.jobs.get? id = some r → s.jobs.get? id' = some r' →
    r.startIdempotencyKey = some key → r'.startIdempotencyKey = some key → id = id'
  indexJobs : ∀ key id, s.index.jobs.get? key = some id →
    ∃ r, s.jobs.get? id = some r ∧ r.startIdempotencyKey = some key
  /-- An operation key is bound in one way, in the records and in the index. -/
  bindings : ∀ id r key b, s.jobs.get? id = some r → r.operationIdempotency.get? key = some b →
    b.job = id ∧ ∀ b', s.index.operations.get? key = some b' → b' = b
  unique : ∀ id r id' r' key b b', s.jobs.get? id = some r → s.jobs.get? id' = some r' →
    r.operationIdempotency.get? key = some b → r'.operationIdempotency.get? key = some b' → b = b'
  /-- While the process runs and nobody holds the lock, the index has every key. -/
  indexed : s.up = true → s.lock = none → ∀ id r key b, s.jobs.get? id = some r →
    r.operationIdempotency.get? key = some b → s.index.operations.get? key = some b
  /-- At most one job is active. -/
  single : LaunchesActive s.history → ∀ id r id' r', s.jobs.get? id = some r →
    s.jobs.get? id' = some r' → r.status.active = true → r'.status.active = true → id = id'
  /-- A registered worker has a record. -/
  registered : ∀ id w, s.workers.get? id = some w → ∃ r, s.jobs.get? id = some r
  guard : ∀ id, s.lifecycle = some id →
    s.marker = some id ∧ ∃ r, s.jobs.get? id = some r
  unreserved : s.lock = none → s.reserving = none

/-- The state mentions no thread numbered `n` or more. -/
structure Below (n : Nat) (s : World) : Prop where
  history : ∀ e ∈ s.history, ∀ τ, e.by = some τ → τ < n
  workers : ∀ id w, s.workers.get? id = some w → w.thread < n

/-! ### Entry, calls and ends -/

structure WorkerEntry (τ : Nat) (id : JobId) (mode : Bool) (s : World) : Prop where
  up : s.up = true
  registered : s.workers.get? id = some ⟨τ, mode⟩
  free : s.reserving ≠ some id
  live : LaunchesActive s.history → ∀ r, s.jobs.get? id = some r → r.status.active = true
  quiet : ∀ e ∈ s.history, e.by ≠ some τ

structure SwitchReady (s : World) (id : JobId) : Prop where
  record : ∃ r b, s.jobs.get? id = some r ∧ r.snapshot.isSome = true ∧ r.backup = some b ∧
    b.writerQuiesced = true ∧ r.switchStarted = true
  backup : BackedUp s.history id

/-- Why a rollback was not run: the lifecycle guard was refused, or the operator's
authorization was to be checked again. -/
def Obstructed (τ : Nat) (h : List Entry) : Prop :=
  (∃ id, Entry.refused τ id ∈ h) ∨
    ∃ z ∈ savesOf τ h, z.rollbackOperatorRequested = some true

/-- The prior images are captured, and the override is being written: what fails from here
on is rolled back. -/
def Captured (job : Job) : Prop := job.snapshot.isSome = true ∧ job.overrideStarted = true

def HandedOver (τ : Nat) (h : List Entry) : Prop := ∃ id, Entry.host τ id .handoffUpdater true ∈ h

def Restored (τ : Nat) (h : List Entry) (z : Job) : Prop :=
  ∃ snapshot, z.snapshot = some snapshot ∧ rollbacksOf τ h = [(snapshot, false)] ∧
    (z.status = .rolledBack ∨ z.status = .cancelled ∨ z.status = .failed)

def Unfailing (τ : Nat) (h : List Entry) : Prop := rollbacksOf τ h = [] ∧ failuresOf τ h = []

/-- How a worker ends: it ran the rollback at most once and never with the database; and if
it wrote a record whose prior images were captured, then either nothing failed, and the last
record it wrote is a success or the update was handed over; or the last record is terminal,
no success, and the rollback ran once from its snapshot, unless that was obstructed. -/
structure Ended (τ : Nat) (h : List Entry) : Prop where
  once : (rollbacksOf τ h).length ≤ 1
  preserves : ∀ p ∈ rollbacksOf τ h, p.2 = false
  terminal : (∃ a ∈ savesOf τ h, Captured a) → ∃ z, (savesOf τ h).getLast? = some z ∧
    ((Unfailing τ h ∧ z.status = .succeeded) ∨ (Unfailing τ h ∧ HandedOver τ h) ∨
      Restored τ h z ∨ (rollbacksOf τ h = [] ∧ z.status = .failed ∧ Obstructed τ h))

def contract : Contract Act Name Failure (Option Job) World where
  Inv := Inv
  Below := Below
  Rely := Rely
  refl := Rely.refl
  trans := Rely.trans
  Entry := fun τ n s =>
    match n with
    | .call _ => s.up = true
    | .worker id mode => WorkerEntry τ id mode s
  Before := fun _ a s =>
    match a with
    | .host id call => call.switches = true → SwitchReady s id
    | _ => True
  Returns := fun τ n result s =>
    match n with
    | .call request => ∃ r, result = some r ∧ Answered s request r
    | .worker _ _ => Ended τ s.history
  Raises := fun τ n _ s =>
    match n with
    | .call _ => True
    | .worker _ _ => Ended τ s.history

end AgenticKibana.Updater
