import AgenticKibana.Updater.Safety

/-!
# Cancelled updates, one update at a time, and the life of a record

A record with a cancellation on disk does not start the switch.  A start is refused while a job is
active, an operator rollback while another job is; only the launch at the end of `start`, outside
the store lock, does not look at the records.
-/

namespace AgenticKibana.Updater

open AgenticKibana.Library Machine

/-- The job is cancelled for good: the record says so, the switch is not started, no call
of the history published the target override or switched backend or Console, and the
update did not succeed. -/
def CancelledForGood (id : JobId) (s : World) : Prop :=
  ∃ r, s.jobs.get? id = some r ∧ r.cancelRequested = true ∧ r.switchStarted = false ∧
    r.status ≠ .succeeded ∧
    ∀ τ call ok, Entry.host τ id call ok ∈ s.history → call.switches = false

variable {s : World} {id : JobId} {r : Job}

theorem Inv.cancelledForGood (hI : Inv s) (hr : s.jobs.get? id = some r)
    (hc : r.cancelRequested = true) : CancelledForGood id s := by
  have hvalid : Valid r := hI.valid id r hr
  have hswitch : r.switchStarted = false := hvalid.cancelled hc
  refine ⟨r, hr, hc, hswitch, ?_, ?_⟩
  · intro hsucceeded
    have hstarted := hvalid.sound.succeeded hsucceeded
    rw [hswitch] at hstarted
    cases hstarted
  · intro τ call ok hm
    by_contra hne
    obtain ⟨r', hr', hstarted⟩ := hI.switched τ id call ok hm (by simpa using hne)
    rw [hr, Option.some.injEq] at hr'
    rw [← hr', hswitch] at hstarted
    cases hstarted

/-- **Cancellation is final.**  In every run: once a `cancel` has been answered with a record
whose cancellation is requested, the job stays cancelled, and never switches or succeeds. -/
theorem cancellation_final {c d : Supervisor} {es : List (Turn Answer Event)} {id : JobId}
    {key : Key} {record : Job} (h : supervisor.Reaches anyStep c)
    (haccepted : Entry.accepted (.cancel id key) record ∈ c.state.history)
    (hcancelled : record.cancelRequested = true) (hrun : supervisor.run c es = some d) :
    CancelledForGood id d.state := by
  have hI : Inv d.state := (verified (h.run hrun)).inv
  have hm : Entry.accepted (.cancel id key) record ∈ d.state.history :=
    mem_history_run h hrun haccepted
  obtain ⟨r, hr, hc⟩ := hI.answered _ _ hm
  exact hI.cancelledForGood hr (hc hcancelled)

def sampleRelease : Release := ⟨"v2", "2.0.0", "v2.0.0", "c2", "plan", "bundle", "repository"⟩

def sampleIdentity : Identity := ⟨"2.0.0", "stable", "c2", "1", "backend", "webui"⟩

/-- Every host call succeeds, on the release's own plan, and finds the target installed; the
next update is number `fresh`. -/
def sampleAnswer (fresh : JobId) : Answer where
  fails := false
  plan := ⟨"2.0.0", "c2", "1"⟩
  blockers := []
  fingerprint := ⟨sampleIdentity, "updater", "compose", "environment"⟩
  handoff := false
  dump := default
  now := 5
  fresh := fresh

/-- `n` actions of a thread. -/
def steps (thread n : Nat) (answer : Answer) : List (Turn Answer Event) :=
  List.replicate n (.step thread answer)

def sampleStart : StartRequest := ⟨some sampleRelease, "token", "start"⟩

def updateStarted : List (Turn Answer Event) :=
  [.outside (.preflight "token" ⟨"preflight", sampleRelease, some 100, some false, none⟩),
    .outside .resume, .outside (.call (.start sampleStart))] ++
  steps 0 18 (sampleAnswer 7) ++ [.finish 0]

set_option maxRecDepth 10000 in
/-- A cancellation of the running update, and a crash after it. -/
theorem cancellation_final_of_one : ∃ c d : Supervisor, supervisor.Reaches anyStep c ∧
    supervisor.run c [.outside .crash, .outside .resume] = some d ∧
    CancelledForGood 7 d.state := by
  have hrun : ((supervisor.run ⟨World.fresh, []⟩ (updateStarted ++
      [.outside (.call (.cancel 7 "cancel"))] ++ steps 2 7 (sampleAnswer 0) ++ [.finish 2])).any
      fun c => (c.state.history.any fun
          | .accepted (.cancel id key) record =>
            id == 7 && key == "cancel" && record.cancelRequested
          | _ => false) &&
        (supervisor.run c [.outside .crash, .outside .resume]).isSome) = true := by decide
  obtain ⟨c, -, hc, hany⟩ := reaches_of_run supervisor _ _ _ ⟨rfl, rfl⟩ hrun
  rw [Bool.and_eq_true, List.any_eq_true, Option.isSome_iff_exists] at hany
  obtain ⟨⟨e, hmem, he⟩, d, hd⟩ := hany
  refine ⟨c, d, hc, hd, ?_⟩
  split at he
  · rename_i id key record
    simp only [Bool.and_eq_true, beq_iff_eq] at he
    obtain ⟨⟨rfl, rfl⟩, hcancelled⟩ := he
    exact cancellation_final hc hmem hcancelled hd
  · cases he

/-! ### No switch without a recovery point -/

open Threads

structure Recoverable (c : Supervisor) : Prop where
  /-- A thread that is about to switch has a record that is ready for it. -/
  ready : ∀ (τ : Nat) (n : Name) (id : JobId) (call : HostCall) k,
    c.threads[τ]? = some (some ⟨n, .act (.host id call) k⟩) → call.switches = true →
    SwitchReady c.state id
  /-- A worker that returns has ended well. -/
  returned : ∀ (τ : Nat) (id : JobId) (mode : Bool) (x : Option Job),
    c.threads[τ]? = some (some ⟨.worker id mode, .ret x⟩) → Ended τ c.state.history
  /-- So has one that raises. -/
  raised : ∀ (τ : Nat) (id : JobId) (mode : Bool) (e : Failure),
    c.threads[τ]? = some (some ⟨.worker id mode, .raise e⟩) → Ended τ c.state.history

/-- **No switch without a recovery point**, in every run, with crashes and new processes at
any point: the record of a job that is about to be switched holds the prior images, a backup
taken after the writer was stopped and the begun switch; and a worker that wrote a record
with the override begun ends in one of four ways: nothing failed and the update succeeded or
was handed over, or it ran the rollback once, from the recorded images and without the
database, and ended without a success, or that rollback was obstructed. -/
theorem switches_recoverable {c : Supervisor} (h : supervisor.Reaches anyStep c) :
    Recoverable c := by
  have hc : updater.Verified contract c := verified h
  constructor
  · intro τ n id call k hτ hswitch
    exact hc.before hτ hswitch
  · intro τ id mode x hτ
    exact hc.threads τ _ _ hτ c.state (Rely.refl τ _) hc.inv
  · intro τ id mode e hτ
    exact hc.threads τ _ _ hτ c.state (Rely.refl τ _) hc.inv

def pendingCall (c : Supervisor) (τ : Nat) : Option (JobId × HostCall) :=
  match c.threads[τ]? with
  | some (some ⟨_, .act a _⟩) =>
    match a with
    | .host id call => some (id, call)
    | _ => none
  | _ => none

variable {c : Supervisor}

theorem of_pendingCall {τ : Nat} {call : HostCall} (h : pendingCall c τ = some (id, call)) :
    ∃ n k, c.threads[τ]? = some (some ⟨n, .act (.host id call) k⟩) := by
  unfold pendingCall at h
  split at h
  · rename_i n act k hτ
    cases act with
    | host id' call' =>
      cases h
      exact ⟨n, k, hτ⟩
    | _ => cases h
  · cases h

set_option maxRecDepth 10000 in
/-- The worker of an update, about to publish the target override. -/
theorem switches_recoverable_of_publication : ∃ c, supervisor.Reaches anyStep c ∧
    pendingCall c 1 = some (7, .activateTargetOverride ⟨"2.0.0", "c2", "1"⟩) ∧
    SwitchReady c.state 7 := by
  have hrun : ((supervisor.run ⟨World.fresh, []⟩
      (updateStarted ++ steps 1 69 (sampleAnswer 0))).any fun c => decide (pendingCall c 1 =
        some (7, .activateTargetOverride ⟨"2.0.0", "c2", "1"⟩))) = true := by
    decide
  obtain ⟨c, -, hc, hpending⟩ := reaches_of_run supervisor _ _ _ ⟨rfl, rfl⟩ hrun
  have hcall := of_decide_eq_true hpending
  obtain ⟨n, k, hτ⟩ := of_pendingCall hcall
  exact ⟨c, hc, hcall, (switches_recoverable hc).ready 1 n 7 _ k hτ rfl⟩

def rollbacksOfJob (id : JobId) (h : List Entry) : List (Snapshot × Bool) :=
  h.filterMap fun
    | .host _ id' (.rollback snapshot _ restore) _ =>
      if id' = id then some (snapshot, restore) else none
    | _ => none

/-- The override cannot be prepared: the worker runs the rollback, and the process is killed
before the outcome is on record.  The next process takes the rollback up again. -/
def interruptedRollback : List (Turn Answer Event) :=
  updateStarted ++ steps 1 29 (sampleAnswer 0) ++ steps 1 1 { sampleAnswer 0 with fails := true } ++
    steps 1 14 (sampleAnswer 0) ++ [.outside .crash, .outside .resume] ++
    steps 2 15 (sampleAnswer 0)

set_option maxRecDepth 10000 in
/-- The failed update has called the rollback twice when it reaches its terminal status. -/
theorem rollback_called_twice : ∃ c, supervisor.Reaches anyStep c ∧
    (∃ r, c.state.jobs.get? 7 = some r ∧ r.overrideStarted = true ∧ r.status = .rolledBack) ∧
    (rollbacksOfJob 7 c.state.history).length = 2 := by
  have hrun : ((supervisor.run ⟨World.fresh, []⟩ interruptedRollback).any fun c =>
      ((c.state.jobs.get? 7).any fun r =>
        r.overrideStarted && decide (r.status = .rolledBack)) &&
        decide ((rollbacksOfJob 7 c.state.history).length = 2)) = true := by decide
  obtain ⟨c, -, hc, hend⟩ := reaches_of_run supervisor _ _ _ ⟨rfl, rfl⟩ hrun
  simp only [Bool.and_eq_true, Option.any_eq_true, decide_eq_true_eq] at hend
  obtain ⟨⟨r, hr, hstarted, hstatus⟩, htwice⟩ := hend
  exact ⟨c, hc, ⟨r, hr, hstarted, hstatus⟩, htwice⟩

/-! ### One update at a time -/

open List

/-- The lookup the locked part of `start` makes in a state. -/
def startLookup (s : World) (release : Release) (key : Key) : Service.Lookup :=
  match s.index.jobs.get? key with
  | some id => Service.lookupIndexed (s.jobs.get? id) release
  | none => Service.lookupRecords s.listJobs release key

theorem eq_singleton_of_nodup {α : Type} {l : List α} {a : α} (hl : l.Nodup) (ha : a ∈ l)
    (h : ∀ b ∈ l, b = a) : l = [a] := by
  match l, hl, ha, h with
  | [b], _, _, h => rw [h b (mem_singleton.mpr rfl)]
  | b :: b' :: rest, hl, _, h =>
    have hb : b = a := h b mem_cons_self
    have hb' : b' = a := h b' (mem_cons_of_mem _ mem_cons_self)
    rw [nodup_cons] at hl
    exact absurd (by rw [hb, hb']; exact mem_cons_self) hl.1

variable {key : Key}

theorem lookupRecords_of_key (hI : Inv s) (hr : s.jobs.get? id = some r)
    (hkey : r.startIdempotencyKey = some key) (release : Release) :
    Service.lookupRecords s.listJobs release key =
      if r.release = release then .repair r
      else .refused "idempotency key was already used for a different request" := by
  have hfilter : (s.listJobs.filter fun job => job.startIdempotencyKey = some key) = [r] := by
    refine eq_singleton_of_nodup ?_ ?_ ?_
    · exact (List.Nodup.of_map Job.jobId (nodup_listJobs hI)).filter _
    · exact mem_filter.mpr ⟨mem_listJobs.mpr ⟨id, hr⟩, decide_eq_true hkey⟩
    · intro r' hm
      rw [mem_filter, decide_eq_true_eq] at hm
      obtain ⟨id', hr'⟩ := mem_listJobs.mp hm.1
      have hid : id' = id := hI.startKeys id' r' id r key hr' hr hm.2 hkey
      rw [hid, hr, Option.some.injEq] at hr'
      exact hr'.symm
  unfold Service.lookupRecords
  rw [hfilter]

/-- A start with a key a job carries finds that job, or is refused when it asks for another
release; it never finds the key free. -/
theorem startLookup_of_key (hI : Inv s) (hr : s.jobs.get? id = some r)
    (hkey : r.startIdempotencyKey = some key) (release : Release) : (r.release = release →
      startLookup s release key = .existing r ∨ startLookup s release key = .repair r) ∧
    (r.release ≠ release → ∃ message, startLookup s release key = .refused message) := by
  unfold startLookup
  cases hindex : s.index.jobs.get? key with
  | none =>
    dsimp only
    rw [lookupRecords_of_key hI hr hkey]
    refine ⟨fun hsame => .inr (if_pos hsame), fun hne => ⟨_, if_neg hne⟩⟩
  | some id' =>
    obtain ⟨r', hr', hkey'⟩ := hI.indexJobs key id' hindex
    have hid : id' = id := hI.startKeys id' r' id r key hr' hr hkey' hkey
    subst hid
    simp only [hr, Service.lookupIndexed]
    exact ⟨fun hsame => .inl (if_pos hsame), fun hne => ⟨_, if_neg hne⟩⟩

structure Exclusive (s : World) : Prop where
  /-- At most one job is active. -/
  single : ∀ id r id' r', s.jobs.get? id = some r → s.jobs.get? id' = some r' →
    r.status.active = true → r'.status.active = true → id = id'
  /-- One job at most was created for a start key. -/
  created : ∀ key id r id' r', s.jobs.get? id = some r → s.jobs.get? id' = some r' →
    r.startIdempotencyKey = some key → r'.startIdempotencyKey = some key → id = id'
  /-- Accepted starts with one key were answered with one job, of the release both asked for. -/
  accepted : ∀ body r body' r', Entry.accepted (.start body) r ∈ s.history →
    Entry.accepted (.start body') r' ∈ s.history → body.key = body'.key →
    r.jobId = r'.jobId ∧ body.release = body'.release
  /-- A start with a key a job carries finds that job, or is refused for its release. -/
  repeated : ∀ id r key release, s.jobs.get? id = some r → r.startIdempotencyKey = some key →
    (r.release = release →
      startLookup s release key = .existing r ∨ startLookup s release key = .repair r) ∧
    (r.release ≠ release → ∃ message, startLookup s release key = .refused message)

def launchesLive (c : Supervisor) (turn : Turn Answer Event) : Prop :=
  launchesActive c.state (action c turn) = true

instance (c : Supervisor) (turn : Turn Answer Event) : Decidable (launchesLive c turn) :=
  inferInstanceAs (Decidable (_ = _))

theorem Inv.accepted_starts {body body' : StartRequest} {r' : Job} (hI : Inv s)
    (h : Entry.accepted (.start body) r ∈ s.history)
    (h' : Entry.accepted (.start body') r' ∈ s.history) (hkey : body.key = body'.key) :
    r.jobId = r'.jobId ∧ body.release = body'.release := by
  obtain ⟨j, hj, hk, hrelease⟩ := hI.answered _ _ h
  obtain ⟨j', hj', hk', hrelease'⟩ := hI.answered _ _ h'
  have hid : r.jobId = r'.jobId :=
    hI.startKeys _ j _ j' body.key hj hj' hk (hkey ▸ hk')
  refine ⟨hid, ?_⟩
  rw [hid, hj', Option.some.injEq] at hj
  rw [hrelease, hrelease', hj]

/-- **Updates exclude each other** in every run in which no launch finds its job ended: over
any interleaving, crash and new process, at most one job is active, a start key created one
job, and a repeated start gets that job or is refused. -/
theorem updates_exclusive {c : Supervisor} (h : supervisor.Reaches launchesLive c) :
    Exclusive c.state := by
  have hI : Inv c.state := (verified h).inv
  have hlaunches : LaunchesActive c.state.history :=
    launchesActive_of_reaches h fun c turn hP => hP
  refine ⟨hI.single hlaunches, ?_, ?_, ?_⟩
  · intro key id r id' r' hr hr' hk hk'
    exact hI.startKeys id r id' r' key hr hr' hk hk'
  · intro body r body' r' hm hm' hkey
    exact hI.accepted_starts hm hm' hkey
  · intro id r key release hr hkey
    exact startLookup_of_key hI hr hkey release

set_option maxRecDepth 10000 in
theorem updates_exclusive_of_one :
    ∃ c, supervisor.Reaches launchesLive c ∧ Exclusive c.state := by
  have hall : supervisor.Throughout launchesLive ⟨World.fresh, []⟩ updateStarted := by
    decide
  have hrun : ((supervisor.run ⟨World.fresh, []⟩ updateStarted).any fun _ => true) = true := by
    decide
  obtain ⟨c, hc, -, -⟩ := reaches_of_run supervisor _ _ _ ⟨rfl, rfl⟩ hrun
  have hreach : supervisor.Reaches launchesLive c := ⟨_, _, ⟨rfl, rfl⟩, hall, hc⟩
  exact ⟨c, hreach, updates_exclusive hreach⟩

/-- The start of job 7 is about to launch it when a retry launches it instead; its worker fails
and rolls back.  Another start creates job 8, and the first start goes on: its worker finds the
guard taken and saves job 7 as rolling back. -/
def lateLaunch : List (Turn Answer Event) :=
  [.outside (.preflight "token" ⟨"preflight", sampleRelease, some 100, some false, none⟩),
    .outside .resume, .outside (.call (.start sampleStart))] ++ steps 0 17 (sampleAnswer 7) ++
  [.outside (.call (.start sampleStart))] ++ steps 1 6 (sampleAnswer 0) ++ [.finish 1] ++
  -- `prepare_target_override` fails
  steps 2 29 (sampleAnswer 0) ++ steps 2 1 { sampleAnswer 0 with fails := true } ++
  steps 2 21 (sampleAnswer 0) ++ [.finish 2] ++
  [.outside (.call (.start { sampleStart with key := "other" }))] ++
  steps 3 18 (sampleAnswer 8) ++ [.finish 3] ++ steps 0 1 (sampleAnswer 0) ++
  steps 5 7 (sampleAnswer 0)

set_option maxRecDepth 10000 in
/-- The late launch makes a second job active. -/
theorem late_launch_not_exclusive :
    ∃ c, supervisor.Reaches anyStep c ∧ ¬ Exclusive c.state := by
  have hrun : ((supervisor.run ⟨World.fresh, []⟩ lateLaunch).any fun c =>
      ((c.state.jobs.get? 7).any fun r => r.status.active) &&
        (c.state.jobs.get? 8).any fun r => r.status.active) = true := by decide
  obtain ⟨c, -, hc, hactive⟩ := reaches_of_run supervisor _ _ _ ⟨rfl, rfl⟩ hrun
  rw [Bool.and_eq_true, Option.any_eq_true, Option.any_eq_true] at hactive
  obtain ⟨⟨r, hr, hactive⟩, r', hr', hactive'⟩ := hactive
  refine ⟨c, hc, ?_⟩
  intro hexclusive
  exact absurd (hexclusive.single 7 r 8 r' hr hr' hactive hactive') (by decide)

/-! ### The life of a record -/

theorem grows_step {d : Supervisor} {turn : Turn Answer Event} (hc : updater.Verified contract c)
    (h : updater.step c turn = some d) (hr : c.state.jobs.get? id = some r) :
    ∃ r', d.state.jobs.get? id = some r' ∧ Grows r r' := by
  rcases rely_step updater_obeys hc h with ⟨τ, hrely⟩ | ⟨x, new, hx⟩
  · obtain ⟨⟨r', hr', hgrows⟩, -⟩ := hrely.record id r hr
    exact ⟨r', hr', hgrows⟩
  · have hsame : d.state.jobs = c.state.jobs := by
      generalize d.state = t at hx ⊢
      cases x with
      | resume =>
        obtain ⟨-, -, index, marker, -, hlaunch⟩ := outside_resume hx
        exact (launched_launchActive hlaunch (nodup_listJobs hc.inv)).jobs
      | resumeInterrupted =>
        simp only [updater, outside] at hx
        split at hx
        · cases hx
        · obtain ⟨index, -, heq⟩ := Option.map_eq_some_iff.mp hx
          simp only [Prod.mk.injEq] at heq
          rw [← heq.1]
      | call =>
        simp only [updater, outside] at hx
        split at hx <;> cases hx
      | loseIndex =>
        simp only [updater, outside] at hx
        split at hx <;> cases hx
        rfl
      | crash =>
        cases hx
        rfl
      | preflight => cases hx
    exact ⟨r, hsame ▸ hr, Grows.refl r⟩

/-- **A job record stays, and only grows.**  In every run, with crashes and new processes at
any point, the record of a job is still there: with its identity, its release and its start
key, without a requested cancellation or a begun switch taken back; and the quiescence and
the backup it claims are in the history, the backup after the quiescence. -/
theorem records_grow {d : Supervisor} {es : List (Turn Answer Event)}
    (h : supervisor.Reaches anyStep c) (hr : c.state.jobs.get? id = some r)
    (hrun : supervisor.run c es = some d) :
    ∃ r', d.state.jobs.get? id = some r' ∧ Grows r r' ∧ Backed d.state.history id r' := by
  have hkept : updater.Verified contract d ∧ ∃ r', d.state.jobs.get? id = some r' ∧ Grows r r' := by
    refine Machine.run_preserves (P := anyStep) (I := fun c => updater.Verified contract c ∧
      ∃ r', c.state.jobs.get? id = some r' ∧ Grows r r') ?_ ⟨verified h, r, hr, Grows.refl r⟩
      (supervisor.throughout_anyStep _ _) hrun
    rintro c turn d ⟨hc, r1, hr1, hgrows⟩ - hd
    obtain ⟨r2, hr2, hgrows'⟩ := grows_step hc hd hr1
    exact ⟨verified_step updater_obeys hc hd, r2, hr2, hgrows.trans hgrows'⟩
  obtain ⟨hverified, r', hr', hgrows⟩ := hkept
  exact ⟨r', hr', hgrows, hverified.inv.backed id r' hr'⟩

set_option maxRecDepth 10000 in
theorem records_grow_of_crash : ∃ (d : Supervisor) (r' : Job), d.state.up = true ∧
    d.state.jobs.get? 7 = some r' ∧ r'.startIdempotencyKey = some "start" := by
  have hrun : ((supervisor.run ⟨World.fresh, []⟩ updateStarted).any fun c =>
      (c.state.jobs.get? 7).any (fun r => decide (r.startIdempotencyKey = some "start")) &&
        (supervisor.run c [.outside .crash, .outside .resume]).any fun d => d.state.up) = true := by
    decide
  obtain ⟨c, -, hc, hany⟩ := reaches_of_run supervisor _ _ _ ⟨rfl, rfl⟩ hrun
  simp only [Bool.and_eq_true, Option.any_eq_true, decide_eq_true_eq] at hany
  obtain ⟨⟨r, hr, hkey⟩, d, hd, hup⟩ := hany
  obtain ⟨r', hr', hgrows, -⟩ := records_grow hc hr hd
  exact ⟨d, r', hup, hr', hgrows.startKey.trans hkey⟩

end AgenticKibana.Updater
