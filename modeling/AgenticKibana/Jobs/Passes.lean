import AgenticKibana.Jobs.Operations
import AgenticKibana.Jobs.RowFacts

/-!
# What an operation can do

An operation that succeeds on a clean registry went one of the ways of `Outcome`, each with the
guard it passed and the registry it wrote; every later result is a case analysis over these.  A
registry is clean when reading it drops nothing.  The pruning and the expiry of artifact links,
the removal of an account's rows, and the pass of the factory fence are folds over rows, with one
lemma each.
-/

namespace AgenticKibana.Jobs

open AgenticKibana.Library

/-! ### Reading a clean registry -/

/-- Decoding changes nothing and refuses nothing. -/
structure Registry.Clean (d : Registry) : Prop where
  valid : ∀ id j, d.jobs.get? id = some j → j.validates = true
  bound : ∀ keyHash id, d.idempotency.get? keyHash = some id → ∃ j, d.jobs.get? id = some j

variable {d d' : Registry} {α : Type} {jobId token : String} {env : Env}
  {r : Job × List JobArtifact}

theorem Registry.Clean.decode (h : d.Clean) : d.decode = .ok d := by
  have hvalid : d.jobs.values.all Job.validates = true := by
    rw [List.all_eq_true]
    intro j hj
    obtain ⟨id, hid⟩ := Dict.mem_values_iff.mp hj
    exact h.valid id j hid
  have hkeys : d.idempotency.filter (fun _ id => d.jobs.contains id) = d.idempotency := by
    apply Dict.ext
    refine List.filter_eq_self.mpr fun e he => ?_
    obtain ⟨j, hj⟩ := h.bound e.1 e.2 (Dict.get?_eq_some_iff.mpr he)
    exact Dict.contains_iff.mpr ⟨j, hj⟩
  rw [Registry.decode, if_pos hvalid, hkeys]

theorem mutate_of_clean (h : d.Clean)
    (change : Registry → Except JobError (α × Registry)) : mutate d change = change d := by
  rw [mutate, h.decode]
  rfl

theorem bind_eq_ok {β : Type} {x : Except JobError α} {f : α → Except JobError β} {b : β} :
    (x >>= f) = .ok b ↔ ∃ a, x = .ok a ∧ f a = .ok b := by
  cases x with
  | error e | ok a => simp [bind, Except.bind]

theorem pure_eq_ok {a b : α} : (pure a : Except JobError α) = .ok b ↔ a = b := by
  simp [pure, Except.pure]

theorem owned_eq_ok {job : Job} :
    d.owned jobId token = .ok job ↔
      d.jobs.get? jobId = some job ∧ job.leaseToken = some token ∧ job.status = .running := by
  unfold Registry.owned
  cases hget : d.jobs.get? jobId with
  | none => simp
  | some row =>
    by_cases hrow : row.leaseToken ≠ some token ∨ row.status ≠ .running
    · simp only [hrow, if_true, reduceCtorEq, Option.some.injEq, false_iff]
      rintro ⟨rfl, htok, hrun⟩
      exact hrow.elim (fun h => h htok) (fun h => h hrun)
    · rw [not_or, not_not, not_not] at hrow
      simp only [hrow, ne_eq, not_true_eq_false, or_self, if_false, Except.ok.injEq,
        Option.some.injEq]
      constructor
      · rintro rfl
        exact ⟨rfl, hrow⟩
      · exact fun h => h.1

@[simp] theorem write_get? (d : Registry) (id id' : String) (j : Job) :
    (d.write id j).jobs.get? id' = if id' = id then some j else d.jobs.get? id' :=
  Dict.get?_set d.jobs id id' j

@[simp] theorem write_idempotency (d : Registry) (id : String) (j : Job) :
    (d.write id j).idempotency = d.idempotency := rfl

@[simp] theorem write_factoryFence (d : Registry) (id : String) (j : Job) :
    (d.write id j).factoryFence = d.factoryFence := rfl

@[simp] theorem drop_get? (d : Registry) (id id' : String) (j : Job) :
    (d.drop id j).jobs.get? id' = if id' = id then none else d.jobs.get? id' :=
  Dict.get?_erase d.jobs id id'

@[simp] theorem drop_factoryFence (d : Registry) (id : String) (j : Job) :
    (d.drop id j).factoryFence = d.factoryFence := rfl

inductive HeldStep (env : Env) (job : Job) : Op → Job → Prop
  | released {jobId token : String} : HeldStep env job (.releaseClaim jobId token) job.releaseClaim
  | renewed {jobId token : String} {leaseMillis : Nat} :
      HeldStep env job (.renew jobId token leaseMillis) (job.renew env leaseMillis)
  | begun {jobId token itemRef : String} :
      HeldStep env job (.beginItem jobId token itemRef) (job.beginItem itemRef)
  | ensured {jobId token : String} {itemRefs : List String} {unit : String} :
      HeldStep env job (.ensureItems jobId token itemRefs unit) (job.ensureItems itemRefs unit)
  | progressed {jobId token : String} {done total : Int} {unit : String} :
      HeldStep env job (.setProgress jobId token done total unit)
        (job.setProgress done total unit)
  | completed {jobId token itemRef : String} {error : Option String} :
      HeldStep env job (.completeItem jobId token itemRef error) (job.completeItem itemRef error)
  | finished {jobId token : String} {status : JobStatus} {result : Option JobResult}
      {jobError : Option String} {ended : Job} (hterm : status.terminal = true)
      (hended : job.finish env status result jobError = .ok ended) :
      HeldStep env job (.finish jobId token status result jobError) ended
  | reserved {jobId token suffix : String} (hsuffix : suffix = ".zip") :
      HeldStep env job (.reserveArtifact jobId token suffix) (job.reserveArtifact env suffix)
  | cleared {jobId token artifactId : String} :
      HeldStep env job (.clearPendingArtifact jobId token artifactId)
        (job.clearPendingArtifact artifactId)

structure Holds (d : Registry) (jobId token : String) (job : Job) : Prop where
  get : d.jobs.get? jobId = some job
  token : job.leaseToken = some token
  running : job.status = .running

/-- The registry `create` writes for a new row: `d1` is left by the pruning. -/
def createdRegistry (d1 : Registry) (job : Job) (recovery : Bool) : Registry :=
  let d2 := expireArtifacts d1 (expiredAtCreate d1)
  { d2.write job.jobId job with
    idempotency := d2.idempotency.set job.idempotencyKeyHash job.jobId
    factoryFence := if recovery then job.jobId else d2.factoryFence }

def Registry.recovery (d : Registry) (job : Job) (nowMs : Nat) : Bool :=
  d.factoryFence ≠ "" && ((d.jobs.get? d.factoryFence).any Job.recoverable &&
    job.freshFactoryReset nowMs)

/-- **The ways an operation succeeds**, with what it returns and what it writes. -/
inductive Outcome (env : Env) (d : Registry) : Op → Val → Registry → Prop
  | bound {s : Submission} {id : String} {existing : Job}
      (hbound : d.boundTo s.idempotencyKeyHash = some id) (hget : d.jobs.get? id = some existing)
      (hprint : existing.requestFingerprint = s.requestFingerprint) :
      Outcome env d (.create s) (.created existing false []) d
  | created {s : Submission} {d1 : Registry} {pruned : List JobArtifact}
      (hbound : d.boundTo s.idempotencyKeyHash = none)
      (hfence : d.factoryFence = "" ∨ d.recovery s.job env.nowMs = true)
      (hprune : pruneTerminal d.jobs.size d = .ok (d1, pruned))
      (hroom : (expireArtifacts d1 (expiredAtCreate d1)).jobs.total activeParamSize +
        jsonSize s.params ≤ maxRegistryParamBytes) :
      Outcome env d (.create s)
        (.created s.job true (pruned ++ (expiredAtCreate d1).filterMap Job.artifact))
        (createdRegistry d1 s.job (d.recovery s.job env.nowMs))
  | idle {owner : String} {leaseMillis : Nat}
      (hnone : firstMin createdKey (claimCandidates d env.nowMs) = none) :
      Outcome env d (.claimNext owner leaseMillis) (.claimed none) d
  | claimed {owner : String} {leaseMillis : Nat} {job : Job}
      (hfirst : firstMin createdKey (claimCandidates d env.nowMs) = some job) :
      Outcome env d (.claimNext owner leaseMillis)
        (.claimed (some (job.claim env owner leaseMillis, env.uuid)))
        (d.write (job.claim env owner leaseMillis).jobId (job.claim env owner leaseMillis))
  | held {op : Op} {jobId token : String} {job next : Job} {val : Val}
      (hlease : op.lease = some (jobId, token)) (hholds : Holds d jobId token job)
      (hstep : HeldStep env job op next) : Outcome env d op val (d.write jobId next)
  | cancelMissed {jobId actor : String} {generation : Option String} {val : Val} :
      Outcome env d (.requestCancel jobId actor generation) val d
  | cancelled {jobId actor : String} {generation : Option String} {job next : Job}
      (hget : d.jobs.get? jobId = some job) (hheld : job.heldBy env actor generation = true)
      (hterm : job.status.terminal = false) (hnext : job.requestCancel env = .ok next) :
      Outcome env d (.requestCancel jobId actor generation) (.found (some next))
        (d.write jobId next)
  | retired {actor generation : String} {d' : Registry} {artifacts : List JobArtifact}
      {removed : Nat}
      (hfold : d.jobs.entries.foldl (retireRow env actor generation) (d, [], 0) =
        (d', artifacts, removed)) :
      Outcome env d (.retireActor actor generation) (.retired artifacts removed) d'
  | purgeMissed {jobId : String} : Outcome env d (.purgeRetiredTerminal jobId) (.freed []) d
  | purged {jobId : String} {job : Job} (hget : d.jobs.get? jobId = some job)
      (hpurge : job.purgeable = true) :
      Outcome env d (.purgeRetiredTerminal jobId) (.freed job.artifact.toList) (d.drop jobId job)
  | inboxSynced {jobId : String} {synced : Bool} {job : Job} {val : Val}
      (hget : d.jobs.get? jobId = some job) :
      Outcome env d (.setInboxSynced jobId synced) val (d.write jobId (job.setInboxSynced synced))
  | audited {jobId : String} {seq : Nat} {job : Job} {val : Val}
      (hget : d.jobs.get? jobId = some job) :
      Outcome env d (.markTransitionAudited jobId seq) val
        (d.write jobId (job.markTransitionAudited seq))
  | expired {jobId artifactId : String} {job : Job} {val : Val}
      (hget : d.jobs.get? jobId = some job)
      (hart : job.artifact.any (·.artifactId = artifactId) = true) :
      Outcome env d (.expireArtifact jobId artifactId) val (d.write jobId job.expireArtifact)
  | rowMissed {op : Op} {val : Val}
      (hop : (∃ id b, op = .setInboxSynced id b) ∨ (∃ id n, op = .markTransitionAudited id n) ∨
        ∃ id a, op = .expireArtifact id a) : Outcome env d op val d
  | unaudited {jobId : Option String} {val : Val} :
      Outcome env d (.markAllTransitionsUnaudited jobId) val
        { d with jobs := d.jobs.mapValues fun key job =>
            if jobId.all (key = ·) then job.markTransitionsUnaudited else job }
  | attached {jobId token : String} {artifact : JobArtifact} {job : Job}
      (hholds : Holds d jobId token job)
      (hpending : job.pendingArtifactId = some artifact.artifactId) :
      Outcome env d (.attachArtifact jobId token artifact)
        (.attached (job.attachArtifact artifact)
          (replacedArtifact job artifact ++
            (expiredAtAttach (d.write jobId (job.attachArtifact artifact)) jobId).filterMap
              Job.artifact))
        (expireArtifacts (d.write jobId (job.attachArtifact artifact))
          (expiredAtAttach (d.write jobId (job.attachArtifact artifact)) jobId))
  | fenced {jobId token : String} {job : Job} {d' : Registry} {artifacts : List JobArtifact}
      (hholds : Holds d jobId token job) (hfence : d.factoryFence = "" ∨ d.factoryFence = jobId)
      (hfold : d.jobs.entries.foldlM (fenceRow env jobId) (d, []) = .ok (d', artifacts)) :
      Outcome env d (.beginFactoryFence jobId token) (.fenced job artifacts)
        { d' with factoryFence := jobId }
  | fenceReleased {jobId : String} {val : Val} :
      Outcome env d (.releaseFactoryFence jobId) val
        { d with factoryFence := if d.factoryFence = jobId then "" else d.factoryFence }
  | compacted {jobId token : String} {status : JobStatus} {result : JobResult}
      {appVersion buildSha : String} {job : Job} (hholds : Holds d jobId token job)
      (hfence : d.factoryFence = jobId) (hterm : status.terminal = true) :
      Outcome env d (.factoryCompact jobId token status result appVersion buildSha)
        (.compacted (job.factoryReceipt env status result appVersion buildSha)
          (d.jobs.values.filterMap Job.artifact))
        { jobs := Dict.empty.set jobId (job.factoryReceipt env status result appVersion buildSha)
          idempotency := .empty
          factoryFence := jobId }

/-! ### Every success is one of them -/

variable {val : Val}

theorem tag_eq_ok {f : α → Val} {x : Except JobError (α × Registry)} :
    tag f x = .ok (val, d') ↔ ∃ a, x = .ok (a, d') ∧ f a = val := by
  cases x with
  | error e => simp [tag]
  | ok r =>
    obtain ⟨a, d⟩ := r
    simp only [tag, Except.ok.injEq, Prod.mk.injEq]
    constructor
    · rintro ⟨rfl, rfl⟩
      exact ⟨a, ⟨rfl, rfl⟩, rfl⟩
    · rintro ⟨a', ⟨rfl, rfl⟩, rfl⟩
      exact ⟨rfl, rfl⟩

section

variable (h : d.Clean)

include h

theorem ownedUpdate_eq_ok {change : Job → Except JobError (α × Job)} {a : α}
    (hok : ownedUpdate d jobId token change = .ok (a, d')) :
    ∃ job next, Holds d jobId token job ∧ change job = .ok (a, next) ∧
      d' = d.write jobId next := by
  rw [ownedUpdate, mutate_of_clean h] at hok
  obtain ⟨job, howned, hrest⟩ := bind_eq_ok.mp hok
  obtain ⟨⟨a', next⟩, hchange, hpure⟩ := bind_eq_ok.mp hrest
  obtain ⟨rfl, rfl⟩ := Prod.mk.inj (pure_eq_ok.mp hpure)
  obtain ⟨hget, htok, hrun⟩ := owned_eq_ok.mp howned
  exact ⟨job, next, ⟨hget, htok, hrun⟩, hchange, rfl⟩

theorem rowUpdate_eq_ok {change : Job → Except JobError Job} {a : Option Job}
    (hok : rowUpdate d jobId change = .ok (a, d')) :
    d' = d ∨ ∃ job next, d.jobs.get? jobId = some job ∧ change job = .ok next ∧
      d' = d.write jobId next := by
  rw [rowUpdate, mutate_of_clean h] at hok
  cases hget : d.jobs.get? jobId with
  | none =>
    simp only [hget, Except.ok.injEq, Prod.mk.injEq] at hok
    exact .inl hok.2.symm
  | some job =>
    simp only [hget] at hok
    obtain ⟨next, hchange, hpure⟩ := bind_eq_ok.mp hok
    obtain ⟨-, rfl⟩ := Prod.mk.inj (pure_eq_ok.mp hpure)
    exact .inr ⟨job, next, rfl, hchange, rfl⟩

theorem create_outcome {s : Submission}
    {r : Job × Bool × List JobArtifact} (hok : create d env s.job = .ok (r, d')) :
    Outcome env d (.create s) (.created r.1 r.2.1 r.2.2) d' := by
  rw [create, mutate_of_clean h] at hok
  cases hbound : d.boundTo s.job.idempotencyKeyHash with
  | some id =>
    cases hget : d.jobs.get? id with
    | none => simp [hbound, hget] at hok
    | some existing =>
      by_cases hprint : existing.requestFingerprint = s.job.requestFingerprint
      · simp only [hbound, hget, hprint, ne_eq, not_true_eq_false, if_false, Except.ok.injEq,
          Prod.mk.injEq] at hok
        obtain ⟨rfl, rfl⟩ := hok
        exact .bound hbound hget hprint
      · simp [hbound, hget, hprint] at hok
  | none =>
    simp only [hbound] at hok
    change (if d.factoryFence ≠ "" ∧ d.recovery s.job env.nowMs = false then _ else _) = _ at hok
    by_cases hfence : d.factoryFence ≠ "" ∧ d.recovery s.job env.nowMs = false
    · rw [if_pos hfence] at hok
      cases hok
    · rw [if_neg hfence] at hok
      obtain ⟨⟨d1, pruned⟩, hprune, hrest⟩ := bind_eq_ok.mp hok
      simp only at hrest
      split at hrest
      · cases hrest
      · next hroom =>
          simp only [Except.ok.injEq, Prod.mk.injEq] at hrest
          obtain ⟨rfl, rfl⟩ := hrest
          refine .created hbound ?_ hprune (Nat.le_of_not_lt hroom)
          by_cases hempty : d.factoryFence = ""
          · exact .inl hempty
          · right
            by_contra hrec
            exact hfence ⟨hempty, by simpa using hrec⟩

theorem claimNext_outcome {owner : String} {leaseMillis : Nat} {r : Option (Job × String)}
    (hok : claimNext d env owner leaseMillis = .ok (r, d')) :
    Outcome env d (.claimNext owner leaseMillis) (.claimed r) d' := by
  rw [claimNext, mutate_of_clean h] at hok
  cases hfirst : firstMin createdKey (claimCandidates d env.nowMs) with
  | none =>
    simp only [hfirst, Except.ok.injEq, Prod.mk.injEq] at hok
    obtain ⟨rfl, rfl⟩ := hok
    exact .idle hfirst
  | some job =>
    simp only [hfirst, Except.ok.injEq, Prod.mk.injEq] at hok
    obtain ⟨rfl, rfl⟩ := hok
    exact .claimed hfirst

variable {actor : String}

theorem requestCancel_outcome {generation : Option String} {r : Option Job}
    (hok : requestCancel d env jobId actor generation = .ok (r, d')) :
    Outcome env d (.requestCancel jobId actor generation) (.found r) d' := by
  rw [requestCancel, mutate_of_clean h] at hok
  cases hget : d.jobs.get? jobId with
  | none =>
    simp only [hget, Except.ok.injEq, Prod.mk.injEq] at hok
    obtain ⟨rfl, rfl⟩ := hok
    exact .cancelMissed
  | some job =>
    simp only [hget] at hok
    split at hok
    · simp only [Except.ok.injEq, Prod.mk.injEq] at hok
      obtain ⟨rfl, rfl⟩ := hok
      exact .cancelMissed
    · next hheld =>
        split at hok
        · simp only [Except.ok.injEq, Prod.mk.injEq] at hok
          obtain ⟨rfl, rfl⟩ := hok
          exact .cancelMissed
        · next hterm =>
            obtain ⟨next, hnext, hpure⟩ := bind_eq_ok.mp hok
            obtain ⟨rfl, rfl⟩ := Prod.mk.inj (pure_eq_ok.mp hpure)
            exact .cancelled hget (by simpa using hheld) (by simpa using hterm) hnext

theorem purge_outcome {r : List JobArtifact} (hok : purgeRetiredTerminal d jobId = .ok (r, d')) :
    Outcome env d (.purgeRetiredTerminal jobId) (.freed r) d' := by
  rw [purgeRetiredTerminal, mutate_of_clean h] at hok
  cases hget : d.jobs.get? jobId with
  | none =>
    simp only [hget, Except.ok.injEq, Prod.mk.injEq] at hok
    obtain ⟨rfl, rfl⟩ := hok
    exact .purgeMissed
  | some job =>
    simp only [hget] at hok
    by_cases hpurge : job.purgeable = true
    · simp only [hpurge, if_true, Except.ok.injEq, Prod.mk.injEq] at hok
      obtain ⟨rfl, rfl⟩ := hok
      exact .purged hget hpurge
    · rw [if_neg hpurge] at hok
      cases hok
      exact .purgeMissed

theorem attachArtifact_outcome {artifact : JobArtifact}
    (hok : attachArtifact d jobId token artifact = .ok (r, d')) :
    Outcome env d (.attachArtifact jobId token artifact) (.attached r.1 r.2) d' := by
  rw [attachArtifact, mutate_of_clean h] at hok
  obtain ⟨job, howned, hrest⟩ := bind_eq_ok.mp hok
  obtain ⟨hget, htok, hrun⟩ := owned_eq_ok.mp howned
  split at hrest
  · cases hrest
  · next hpending =>
      obtain ⟨rfl, rfl⟩ := Prod.mk.inj (pure_eq_ok.mp hrest)
      exact .attached ⟨hget, htok, hrun⟩ (by simpa using hpending)

theorem beginFactoryFence_outcome (hok : beginFactoryFence d env jobId token = .ok (r, d')) :
    Outcome env d (.beginFactoryFence jobId token) (.fenced r.1 r.2) d' := by
  rw [beginFactoryFence, mutate_of_clean h] at hok
  obtain ⟨job, howned, hrest⟩ := bind_eq_ok.mp hok
  obtain ⟨hget, htok, hrun⟩ := owned_eq_ok.mp howned
  split at hrest
  · cases hrest
  · next hfence =>
      obtain ⟨⟨d1, artifacts⟩, hfold, hpure⟩ := bind_eq_ok.mp hrest
      obtain ⟨rfl, rfl⟩ := Prod.mk.inj (pure_eq_ok.mp hpure)
      refine .fenced ⟨hget, htok, hrun⟩ ?_ hfold
      by_cases hempty : d.factoryFence = ""
      · exact .inl hempty
      · exact .inr (by_contra fun hne => hfence ⟨hempty, hne⟩)

theorem factoryCompact_outcome {status : JobStatus} {result : JobResult}
    {appVersion buildSha : String}
    (hkey : ∀ job, d.jobs.get? jobId = some job → job.jobId = jobId)
    (hok : factoryCompact d env jobId token status result appVersion buildSha = .ok (r, d')) :
    Outcome env d (.factoryCompact jobId token status result appVersion buildSha)
      (.compacted r.1 r.2) d' := by
  unfold factoryCompact at hok
  split at hok
  · cases hok
  · next hterm =>
      rw [mutate_of_clean h] at hok
      obtain ⟨job, howned, hrest⟩ := bind_eq_ok.mp hok
      obtain ⟨hget, htok, hrun⟩ := owned_eq_ok.mp howned
      split at hrest
      · cases hrest
      · next hfence =>
          obtain ⟨rfl, rfl⟩ := Prod.mk.inj (pure_eq_ok.mp hrest)
          have hid : (job.factoryReceipt env status result appVersion buildSha).jobId = jobId :=
            hkey job hget
          rw [hid]
          exact .compacted ⟨hget, htok, hrun⟩ (by simpa using hfence) (by simpa using hterm)

/-- **Inversion**: a successful operation on a clean registry whose rows stand under
their own ids went one of the ways of `Outcome`. -/
theorem outcome_of_run (hkey : ∀ id job, d.jobs.get? id = some job → job.jobId = id)
    {op : Op} (hok : op.run env d = .ok (val, d')) : Outcome env d op val d' := by
  cases op with
  | create s =>
    obtain ⟨r, hr, rfl⟩ := tag_eq_ok.mp hok
    exact create_outcome h hr
  | claimNext owner leaseMillis =>
    obtain ⟨r, hr, rfl⟩ := tag_eq_ok.mp hok
    exact claimNext_outcome h hr
  | requestCancel jobId actor generation =>
    obtain ⟨r, hr, rfl⟩ := tag_eq_ok.mp hok
    exact requestCancel_outcome h hr
  | retireActor actor generation =>
    obtain ⟨r, hr, rfl⟩ := tag_eq_ok.mp hok
    rw [retireActor, mutate_of_clean h] at hr
    simp only [Except.ok.injEq, Prod.mk.injEq] at hr
    obtain ⟨rfl, rfl⟩ := hr
    exact .retired rfl
  | purgeRetiredTerminal jobId =>
    obtain ⟨r, hr, rfl⟩ := tag_eq_ok.mp hok
    exact purge_outcome h hr
  | setInboxSynced jobId synced =>
    obtain ⟨r, hr, rfl⟩ := tag_eq_ok.mp hok
    rcases rowUpdate_eq_ok h hr with rfl | ⟨job, next, hget, hnext, rfl⟩
    · exact .rowMissed (.inl ⟨jobId, synced, rfl⟩)
    · cases hnext
      exact .inboxSynced hget
  | markTransitionAudited jobId seq =>
    obtain ⟨r, hr, rfl⟩ := tag_eq_ok.mp hok
    rcases rowUpdate_eq_ok h hr with rfl | ⟨job, next, hget, hnext, rfl⟩
    · exact .rowMissed (.inr (.inl ⟨jobId, seq, rfl⟩))
    · cases hnext
      exact .audited hget
  | expireArtifact jobId artifactId =>
    obtain ⟨r, hr, rfl⟩ := tag_eq_ok.mp hok
    rcases rowUpdate_eq_ok h hr with rfl | ⟨job, next, hget, hnext, rfl⟩
    · exact .rowMissed (.inr (.inr ⟨jobId, artifactId, rfl⟩))
    · simp only [Except.ok.injEq] at hnext
      by_cases hart : job.artifact.any (·.artifactId = artifactId) = true
      · rw [if_pos hart] at hnext
        exact hnext ▸ .expired hget hart
      · rw [if_neg hart] at hnext
        have hsame : d.write jobId next = d := by
          rw [← hnext, Registry.write, Dict.set_eq_self hget]
        rw [hsame]
        exact .rowMissed (.inr (.inr ⟨jobId, artifactId, rfl⟩))
  | markAllTransitionsUnaudited jobId =>
    obtain ⟨r, hr, rfl⟩ := tag_eq_ok.mp hok
    rw [markAllTransitionsUnaudited, mutate_of_clean h] at hr
    simp only [Except.ok.injEq, Prod.mk.injEq] at hr
    obtain ⟨-, rfl⟩ := hr
    exact .unaudited
  | attachArtifact jobId token artifact =>
    obtain ⟨r, hr, rfl⟩ := tag_eq_ok.mp hok
    exact attachArtifact_outcome h hr
  | beginFactoryFence jobId token =>
    obtain ⟨r, hr, rfl⟩ := tag_eq_ok.mp hok
    exact beginFactoryFence_outcome h hr
  | releaseFactoryFence jobId =>
    obtain ⟨r, hr, rfl⟩ := tag_eq_ok.mp hok
    rw [releaseFactoryFence, mutate_of_clean h] at hr
    simp only [Except.ok.injEq, Prod.mk.injEq] at hr
    obtain ⟨-, rfl⟩ := hr
    exact .fenceReleased
  | factoryCompact jobId token status result appVersion buildSha =>
    obtain ⟨r, hr, rfl⟩ := tag_eq_ok.mp hok
    exact factoryCompact_outcome h (hkey jobId) hr
  | finish jobId token status result jobError =>
    obtain ⟨r, hr, rfl⟩ := tag_eq_ok.mp hok
    unfold finish at hr
    split at hr
    · cases hr
    · next hterm =>
        obtain ⟨job, next, hholds, hnext, rfl⟩ := ownedUpdate_eq_ok h hr
        obtain ⟨ended, hended, hpure⟩ := bind_eq_ok.mp hnext
        obtain ⟨-, rfl⟩ := Prod.mk.inj (pure_eq_ok.mp hpure)
        exact .held rfl hholds (.finished (by simpa using hterm) hended)
  | reserveArtifact jobId token suffix =>
    obtain ⟨r, hr, rfl⟩ := tag_eq_ok.mp hok
    unfold reserveArtifact at hr
    split at hr
    · cases hr
    · next hsuffix =>
        obtain ⟨job, next, hholds, hnext, rfl⟩ := ownedUpdate_eq_ok h hr
        simp only [Except.ok.injEq, Prod.mk.injEq] at hnext
        obtain ⟨-, rfl⟩ := hnext
        exact .held rfl hholds (.reserved (by simpa using hsuffix))
  | releaseClaim | renew | beginItem | ensureItems | setProgress | completeItem
  | clearPendingArtifact =>
    obtain ⟨r, hr, rfl⟩ := tag_eq_ok.mp hok
    obtain ⟨job, next, hholds, hnext, rfl⟩ := ownedUpdate_eq_ok h hr
    simp only [Except.ok.injEq, Prod.mk.injEq] at hnext
    obtain ⟨-, rfl⟩ := hnext
    refine .held rfl hholds ?_
    first
      | exact .released
      | exact .renewed
      | exact .begun
      | exact .ensured
      | exact .progressed
      | exact .completed
      | exact .cleared

end

open List

/-! ### The idempotency map -/

def Registry.Keyed (d : Registry) : Prop := ∀ id j, d.jobs.get? id = some j → j.jobId = id

/-- **The idempotency map mirrors the rows**: a hash names a row exactly when it is the
non-empty key hash of that row.  A row without a key hash is a sanitized receipt. -/
def Registry.KeysMatch (d : Registry) : Prop :=
  ∀ keyHash id, d.idempotency.get? keyHash = some id ↔
    ∃ j, d.jobs.get? id = some j ∧ j.idempotencyKeyHash = keyHash ∧ keyHash ≠ ""

variable {d d' : Registry} {j : Job} {jobId : String} {env : Env}

theorem Registry.Keyed.values (h : d.Keyed) :
    j ∈ d.jobs.values ↔ d.jobs.get? j.jobId = some j := by
  rw [Dict.mem_values_iff]
  constructor
  · rintro ⟨id, hid⟩
    rw [h id j hid]
    exact hid
  · exact fun hget => ⟨_, hget⟩

variable {id : String}

theorem Registry.Keyed.write (h : d.Keyed) (hj : j.jobId = id) : (d.write id j).Keyed := by
  intro id' j' hget
  rw [write_get?] at hget
  by_cases hid : id' = id
  · rw [if_pos hid] at hget
    obtain rfl := Option.some.inj hget
    exact hj.trans hid.symm
  · rw [if_neg hid] at hget
    exact h id' j' hget

theorem Registry.Keyed.drop (h : d.Keyed) (id : String) (j : Job) :
    (d.drop id j).Keyed := by
  intro id' j' hget
  rw [drop_get?] at hget
  by_cases hid : id' = id
  · rw [if_pos hid] at hget
    cases hget
  · rw [if_neg hid] at hget
    exact h id' j' hget

variable {j' : Job}

theorem Registry.KeysMatch.write (h : d.KeysMatch) (hget : d.jobs.get? id = some j)
    (hhash : j'.idempotencyKeyHash = j.idempotencyKeyHash) : (d.write id j').KeysMatch := by
  intro keyHash id'
  rw [write_idempotency, h keyHash id', write_get?]
  by_cases hid : id' = id
  · subst hid
    simp [hget, hhash]
  · simp [hid]

theorem Registry.KeysMatch.drop (h : d.KeysMatch) (hget : d.jobs.get? id = some j) :
    (d.drop id j).KeysMatch := by
  intro keyHash id'
  have hmap : (d.drop id j).idempotency.get? keyHash =
      if keyHash = j.idempotencyKeyHash ∧ keyHash ≠ "" then none
      else d.idempotency.get? keyHash := by
    by_cases hempty : j.idempotencyKeyHash = ""
    · have hunbound : d.idempotency.get? j.idempotencyKeyHash ≠ some id := by
        rw [Ne, h]
        rintro ⟨-, -, -, hne⟩
        exact hne hempty
      have hneg : ¬ (keyHash = j.idempotencyKeyHash ∧ keyHash ≠ "") := by
        rintro ⟨rfl, hne⟩
        exact hne hempty
      simp only [Registry.drop, hunbound, if_false, hneg]
    · have hbound : d.idempotency.get? j.idempotencyKeyHash = some id :=
        (h _ _).mpr ⟨j, hget, rfl, hempty⟩
      simp only [Registry.drop, hbound, if_true, Dict.get?_erase]
      by_cases hk : keyHash = j.idempotencyKeyHash
      · simp [hk, hempty]
      · simp [hk]
  rw [hmap, drop_get?]
  by_cases hid : id' = id
  · subst hid
    rw [if_pos rfl]
    constructor
    · intro hsome
      split at hsome
      · cases hsome
      · next hneg =>
          obtain ⟨j0, hj0, hhash, hne⟩ := (h keyHash id').mp hsome
          rw [hget, Option.some.injEq] at hj0
          exact absurd ⟨hj0 ▸ hhash.symm, hne⟩ hneg
    · rintro ⟨j', hj', -⟩
      cases hj'
  · rw [if_neg hid]
    constructor
    · intro hsome
      split at hsome
      · cases hsome
      · exact (h keyHash id').mp hsome
    · rintro ⟨j', hj', hhash, hne⟩
      have hbound : d.idempotency.get? keyHash = some id' := (h _ _).mpr ⟨j', hj', hhash, hne⟩
      rw [if_neg, hbound]
      rintro ⟨rfl, -⟩
      -- two rows with one key hash would be named by the same key
      have hboth : d.idempotency.get? j.idempotencyKeyHash = some id :=
        (h _ _).mpr ⟨j, hget, rfl, hne⟩
      rw [hbound, Option.some.injEq] at hboth
      exact hid hboth

variable {key : Job → String × String} {rows : List Job}

theorem firstMin_mem (h : firstMin key rows = some j) : j ∈ rows := by
  induction rows generalizing j with
  | nil => cases h
  | cons r rs ih =>
    simp only [firstMin] at h
    cases hrest : firstMin key rs with
    | none =>
      rw [hrest] at h
      obtain rfl := Option.some.inj h
      exact mem_cons_self
    | some best =>
      rw [hrest] at h
      simp only at h
      split at h
      · obtain rfl := Option.some.inj h
        exact mem_cons_self
      · obtain rfl := Option.some.inj h
        exact mem_cons_of_mem _ (ih hrest)

theorem firstMin_eq_none (h : firstMin key rows = none) : rows = [] := by
  cases rows with
  | nil => rfl
  | cons r rs =>
    simp only [firstMin] at h
    cases hrest : firstMin key rs with
    | none => simp [hrest] at h
    | some best =>
      rw [hrest] at h
      simp only at h
      split at h <;> cases h

theorem mem_newestFirst : j ∈ newestFirst rows ↔ j ∈ rows :=
  mem_insertionSort _

/-! ### Expiring artifact links -/

theorem expireArtifacts_idempotency (d : Registry) (rows : List Job) :
    (expireArtifacts d rows).idempotency = d.idempotency := by
  induction rows generalizing d with
  | nil => rfl
  | cons r rs ih => exact ih (d.write r.jobId r.expireArtifact)

theorem expireArtifacts_factoryFence (d : Registry) (rows : List Job) :
    (expireArtifacts d rows).factoryFence = d.factoryFence := by
  induction rows generalizing d with
  | nil => rfl
  | cons r rs ih => exact ih (d.write r.jobId r.expireArtifact)

theorem expireArtifacts_get?_or (d : Registry) (rows : List Job) (id : String) :
    (∃ r ∈ rows, r.jobId = id ∧ (expireArtifacts d rows).jobs.get? id = some r.expireArtifact) ∨
      ((∀ r ∈ rows, r.jobId ≠ id) ∧ (expireArtifacts d rows).jobs.get? id = d.jobs.get? id) := by
  induction rows generalizing d with
  | nil => exact .inr ⟨by simp, rfl⟩
  | cons r rs ih =>
    rcases ih (d.write r.jobId r.expireArtifact) with ⟨r', hr', hid, hget⟩ | ⟨hnone, hget⟩
    · exact .inl ⟨r', mem_cons_of_mem _ hr', hid, hget⟩
    · rw [write_get?] at hget
      by_cases hid : id = r.jobId
      · rw [if_pos hid] at hget
        exact .inl ⟨r, mem_cons_self, hid.symm, hget⟩
      · rw [if_neg hid] at hget
        refine .inr ⟨?_, hget⟩
        intro r' hr'
        rcases mem_cons.mp hr' with rfl | hr'
        · exact fun h => hid h.symm
        · exact hnone r' hr'

/-- **Expiry, row by row**: rows of the list lose their artifact link, the others stand. -/
theorem expireArtifacts_get? (hrows : ∀ r ∈ rows, d.jobs.get? r.jobId = some r) (id : String) :
    (expireArtifacts d rows).jobs.get? id =
      (d.jobs.get? id).map fun j => if ∃ r ∈ rows, r.jobId = id then j.expireArtifact else j := by
  rcases expireArtifacts_get?_or d rows id with ⟨r, hr, rfl, hget⟩ | ⟨hnone, hget⟩
  · rw [hget, hrows r hr, Option.map_some, if_pos ⟨r, hr, rfl⟩]
  · have hneg : ¬ ∃ r ∈ rows, r.jobId = id := by
      rintro ⟨r, hr, hid⟩
      exact hnone r hr hid
    rw [hget]
    simp [hneg]

theorem Registry.Keyed.expireArtifacts (h : d.Keyed)
    (hrows : ∀ r ∈ rows, d.jobs.get? r.jobId = some r) : (expireArtifacts d rows).Keyed := by
  intro id j hget
  rw [expireArtifacts_get? hrows, Option.map_eq_some_iff] at hget
  obtain ⟨j0, hj0, rfl⟩ := hget
  split
  · exact h id j0 hj0
  · exact h id j0 hj0

theorem Registry.KeysMatch.expireArtifacts (h : d.KeysMatch)
    (hrows : ∀ r ∈ rows, d.jobs.get? r.jobId = some r) : (expireArtifacts d rows).KeysMatch := by
  intro keyHash id
  rw [expireArtifacts_idempotency, h keyHash id, expireArtifacts_get? hrows]
  cases d.jobs.get? id with
  | none => simp
  | some j =>
    simp only [Option.some.injEq, exists_eq_left', Option.map_some]
    split <;> rfl

variable {r : Job}

theorem mem_expiredAtCreate (h : d.Keyed) (hr : r ∈ expiredAtCreate d) :
    d.jobs.get? r.jobId = some r ∧ r.status.terminal = true ∧ r.artifact.isSome = true := by
  have hmem := mem_newestFirst.mp (mem_of_mem_drop hr)
  rw [mem_filter, Bool.and_eq_true] at hmem
  exact ⟨h.values.mp hmem.1, hmem.2⟩

theorem mem_expiredAtAttach (h : d.Keyed) (hr : r ∈ expiredAtAttach d jobId) :
    d.jobs.get? r.jobId = some r ∧ r.artifact.isSome = true ∧ r.jobId ≠ jobId := by
  have hmem := mem_newestFirst.mp (mem_of_mem_drop hr)
  rw [mem_filter, Bool.and_eq_true] at hmem
  exact ⟨h.values.mp hmem.1, hmem.2.1, by simpa using hmem.2.2⟩

/-- What the pruning of `create` leaves of a registry. -/
structure Pruned (d d' : Registry) (pruned : List JobArtifact) : Prop where
  keyed : d'.Keyed
  keys : d'.KeysMatch
  fence : d'.factoryFence = d.factoryFence
  rows : ∀ id j, d'.jobs.get? id = some j → d.jobs.get? id = some j
  left : ∀ id j, d.jobs.get? id = some j → d'.jobs.get? id = some j ∨
    (d'.jobs.get? id = none ∧ j.status.terminal = true ∧ ∀ a, j.artifact = some a → a ∈ pruned)
  handed : ∀ a ∈ pruned, ∃ id j, d.jobs.get? id = some j ∧ d'.jobs.get? id = none ∧
    j.artifact = some a

theorem Pruned.refl (hk : d.Keyed) (hm : d.KeysMatch) : Pruned d d [] where
  keyed := hk
  keys := hm
  fence := rfl
  rows _ _ h := h
  left _ _ h := .inl h
  handed := by simp

theorem pruneTerminal_spec {fuel : Nat} {pruned : List JobArtifact}
    (hk : d.Keyed) (hm : d.KeysMatch) (h : pruneTerminal fuel d = .ok (d', pruned)) :
    Pruned d d' pruned := by
  induction fuel generalizing d pruned with
  | zero =>
    obtain ⟨rfl, rfl⟩ := Prod.mk.inj (Except.ok.inj h)
    exact .refl hk hm
  | succ fuel ih =>
    simp only [pruneTerminal] at h
    split at h
    · obtain ⟨rfl, rfl⟩ := Prod.mk.inj (Except.ok.inj h)
      exact .refl hk hm
    · split at h
      · cases h
      · next victim hmin =>
          obtain ⟨⟨d1, rest⟩, hrest, hpure⟩ := bind_eq_ok.mp h
          obtain ⟨rfl, rfl⟩ := Prod.mk.inj (pure_eq_ok.mp hpure)
          have hvictim := mem_filter.mp (firstMin_mem hmin)
          have hget := hk.values.mp hvictim.1
          have hp := ih (hk.drop _ _) (hm.drop hget) hrest
          have hgone : d1.jobs.get? victim.jobId = none := by
            cases hg : d1.jobs.get? victim.jobId with
            | none => rfl
            | some j =>
              have := hp.rows _ _ hg
              rw [drop_get?, if_pos rfl] at this
              cases this
          refine ⟨hp.keyed, hp.keys, hp.fence, ?_, ?_, ?_⟩
          · intro id j hj
            have := hp.rows id j hj
            rw [drop_get?] at this
            split at this
            · cases this
            · exact this
          · intro id j hj
            by_cases hid : id = victim.jobId
            · subst hid
              rw [hget, Option.some.injEq] at hj
              subst hj
              refine .inr ⟨hgone, hvictim.2, fun a ha => ?_⟩
              simp [ha]
            · have hj' : (d.drop victim.jobId victim).jobs.get? id = some j := by
                rw [drop_get?, if_neg hid, hj]
              rcases hp.left id j hj' with hkept | ⟨hnone, hterm, hart⟩
              · exact .inl hkept
              · exact .inr ⟨hnone, hterm, fun a ha => mem_append_right _ (hart a ha)⟩
          · intro a ha
            rcases mem_append.mp ha with ha | ha
            · refine ⟨victim.jobId, victim, hget, hgone, ?_⟩
              simpa using ha
            · obtain ⟨id, j, hj, hnone, hart⟩ := hp.handed a ha
              rw [drop_get?] at hj
              split at hj
              · cases hj
              · exact ⟨id, j, hj, hnone, hart⟩

/-- What `retire_actor` leaves of a row. -/
def retiredRow (env : Env) (actor generation : String) (j : Job) : Option Job :=
  if j.ofAccount env actor generation = false then some j
  else if j.status = .running then some j.retire
  else none

/-- What the pass of `retire_actor` leaves of a registry, for the entries it has
visited. -/
structure Retired (env : Env) (actor generation : String) (es : List (String × Job))
    (d d' : Registry) (artifacts artifacts' : List JobArtifact) : Prop where
  keyed : d'.Keyed
  keys : d'.KeysMatch
  fence : d'.factoryFence = d.factoryFence
  visited : ∀ id j, (id, j) ∈ es → d'.jobs.get? id = retiredRow env actor generation j
  unvisited : ∀ id, id ∉ es.map Prod.fst → d'.jobs.get? id = d.jobs.get? id
  handed : ∀ a, a ∈ artifacts' ↔ a ∈ artifacts ∨ ∃ id j, (id, j) ∈ es ∧
    retiredRow env actor generation j = none ∧ j.artifact = some a

theorem retireRow_spec (env : Env) (actor generation : String) (hk : d.Keyed) (hm : d.KeysMatch)
    (hget : d.jobs.get? id = some j) (artifacts : List JobArtifact) (removed : Nat) :
    ∃ d1 n, retireRow env actor generation (d, artifacts, removed) (id, j) =
        (d1, artifacts ++ (if retiredRow env actor generation j = none then j.artifact.toList
          else []), n) ∧
      d1.Keyed ∧ d1.KeysMatch ∧ d1.factoryFence = d.factoryFence ∧
      d1.jobs.get? id = retiredRow env actor generation j ∧
      ∀ id', id' ≠ id → d1.jobs.get? id' = d.jobs.get? id' := by
  unfold retireRow retiredRow
  by_cases hacc : j.ofAccount env actor generation = false
  · exact ⟨d, removed, by simp [hacc], hk, hm, rfl, by simp [hacc, hget], fun _ _ => rfl⟩
  · by_cases hrun : j.status = .running
    · refine ⟨d.write id j.retire, removed, by simp [hacc, hrun], ?_, ?_, rfl, ?_, ?_⟩
      · exact hk.write (hk id j hget)
      · exact hm.write hget rfl
      · simp [hacc, hrun]
      · intro id' hid
        rw [write_get?, if_neg hid]
    · refine ⟨d.drop id j, removed + 1, by simp [hacc, hrun], hk.drop _ _, hm.drop hget, rfl,
        ?_, ?_⟩
      · simp [hacc, hrun]
      · intro id' hid
        rw [drop_get?, if_neg hid]

variable {generation : String} {es : List (String × Job)}
  {artifacts artifacts' : List JobArtifact}

theorem retire_fold (hnd : (es.map Prod.fst).Nodup) {n n' : Nat} (hk : d.Keyed) (hm : d.KeysMatch)
    (hget : ∀ e ∈ es, d.jobs.get? e.1 = some e.2)
    (h : es.foldl (retireRow env actor generation) (d, artifacts, n) = (d', artifacts', n')) :
    Retired env actor generation es d d' artifacts artifacts' := by
  induction es generalizing d artifacts n with
  | nil =>
    simp only [foldl_nil, Prod.mk.injEq] at h
    obtain ⟨rfl, rfl, rfl⟩ := h
    exact ⟨hk, hm, rfl, by simp, fun _ _ => rfl, by simp⟩
  | cons e es ih =>
    obtain ⟨id, j⟩ := e
    obtain ⟨hnot, hnd'⟩ := nodup_cons.mp (map_cons ▸ hnd)
    have hnot' : id ∉ es.map Prod.fst := hnot
    obtain ⟨d1, n1, hrow, hk1, hm1, hf1, hid1, hother1⟩ :=
      retireRow_spec env actor generation hk hm (hget (id, j) mem_cons_self) artifacts n
    rw [foldl_cons, hrow] at h
    have hget1 : ∀ e ∈ es, d1.jobs.get? e.1 = some e.2 := by
      intro e he
      have hne : e.1 ≠ id := fun heq => hnot' (List.mem_map.mpr ⟨e, he, heq⟩)
      rw [hother1 e.1 hne]
      exact hget e (mem_cons_of_mem _ he)
    have hr := ih hnd' hk1 hm1 hget1 h
    refine ⟨hr.keyed, hr.keys, hr.fence.trans hf1, ?_, ?_, ?_⟩
    · intro id' j' hmem
      rcases mem_cons.mp hmem with heq | hmem
      · obtain ⟨rfl, rfl⟩ := Prod.mk.inj heq
        rw [hr.unvisited id' hnot', hid1]
      · exact hr.visited id' j' hmem
    · intro id' hid'
      simp only [map_cons, mem_cons, not_or] at hid'
      rw [hr.unvisited id' hid'.2, hother1 id' hid'.1]
    · intro a
      rw [hr.handed a, mem_append]
      constructor
      · rintro ((ha | ha) | ⟨id', j', hmem, hnone, hart⟩)
        · exact .inl ha
        · split at ha
          · next hnone =>
              exact .inr ⟨id, j, mem_cons_self, hnone, by simpa using ha⟩
          · cases ha
        · exact .inr ⟨id', j', mem_cons_of_mem _ hmem, hnone, hart⟩
      · rintro (ha | ⟨id', j', hmem, hnone, hart⟩)
        · exact .inl (.inl ha)
        · rcases mem_cons.mp hmem with heq | hmem
          · obtain ⟨rfl, rfl⟩ := Prod.mk.inj heq
            exact .inl (.inr (by simp [hnone, hart]))
          · exact .inr ⟨id', j', hmem, hnone, hart⟩

/-- **`retire_actor`, row by row.** -/
theorem retireActor_rows {removed : Nat} (hk : d.Keyed) (hm : d.KeysMatch)
    (h : d.jobs.entries.foldl (retireRow env actor generation) (d, [], 0) =
      (d', artifacts, removed)) : Retired env actor generation d.jobs.entries d d' [] artifacts ∧
      ∀ id, d'.jobs.get? id = (d.jobs.get? id).bind (retiredRow env actor generation) := by
  have hget : ∀ e ∈ d.jobs.entries, d.jobs.get? e.1 = some e.2 :=
    fun e he => Dict.get?_eq_some_iff.mpr he
  have hr := retire_fold d.jobs.nodup hk hm hget h
  refine ⟨hr, fun id => ?_⟩
  cases hid : d.jobs.get? id with
  | none =>
    have hnot : id ∉ d.jobs.entries.map Prod.fst := Dict.get?_eq_none_iff.mp hid
    rw [hr.unvisited id hnot, hid]
    rfl
  | some j => exact hr.visited id j (Dict.get?_eq_some_iff.mp hid)

/-- What `begin_factory_fence` makes of a row. -/
def fencedRow (env : Env) (jobId id : String) (j : Job) : Except JobError Job :=
  if id = jobId ∨ j.status.terminal = true then .ok j else j.stopForFence env

theorem stopForFence_artifact (h : j.stopForFence env = .ok j') : j'.artifact = j.artifact := by
  rcases Job.stopForFence_holdings h with h | h <;>
    · simp only [Job.holdings, Prod.mk.injEq] at h
      exact h.2.1

/-- What the pass of `begin_factory_fence` leaves of a registry, for the entries it has
visited. -/
structure Fenced (env : Env) (jobId : String) (es : List (String × Job)) (d d' : Registry)
    (artifacts artifacts' : List JobArtifact) : Prop where
  keyed : d'.Keyed
  keys : d'.KeysMatch
  visited : ∀ id j, (id, j) ∈ es →
    ∃ j', fencedRow env jobId id j = .ok j' ∧ d'.jobs.get? id = some j'
  unvisited : ∀ id, id ∉ es.map Prod.fst → d'.jobs.get? id = d.jobs.get? id
  handed : ∀ a, a ∈ artifacts' ↔ a ∈ artifacts ∨ ∃ id j, (id, j) ∈ es ∧ id ≠ jobId ∧
    j.status = .queued ∧ j.artifact = some a

theorem fenceRow_spec {d1 : Registry} {artifacts1 : List JobArtifact} (hk : d.Keyed)
    (hm : d.KeysMatch) (hget : d.jobs.get? id = some j)
    (h : fenceRow env jobId (d, artifacts) (id, j) = .ok (d1, artifacts1)) :
    d1.Keyed ∧ d1.KeysMatch ∧
      (∃ j', fencedRow env jobId id j = .ok j' ∧ d1.jobs.get? id = some j') ∧
      (∀ id', id' ≠ id → d1.jobs.get? id' = d.jobs.get? id') ∧
      artifacts1 = artifacts ++
        (if id ≠ jobId ∧ j.status = .queued then j.artifact.toList else []) := by
  simp only [fenceRow] at h
  split at h
  · next hskip =>
      obtain ⟨rfl, rfl⟩ := Prod.mk.inj (Except.ok.inj h)
      refine ⟨hk, hm, ⟨j, by rw [fencedRow, if_pos hskip], hget⟩, fun _ _ => rfl, ?_⟩
      have hnot : ¬ (id ≠ jobId ∧ j.status = .queued) := by
        rintro ⟨hid, hq⟩
        rcases hskip with heq | hterm
        · exact hid heq
        · rw [hq] at hterm
          cases hterm
      simp [hnot]
  · next hvisit =>
      obtain ⟨stopped, hstop, hpure⟩ := bind_eq_ok.mp h
      obtain ⟨rfl, rfl⟩ := Prod.mk.inj (pure_eq_ok.mp hpure)
      have hheader := Job.stopForFence_header hstop
      refine ⟨hk.write ((Job.jobId_of_header hheader).trans (hk id j hget)),
        hm.write hget (Job.hash_of_header hheader), ⟨stopped, ?_, ?_⟩, ?_, ?_⟩
      · rw [fencedRow, if_neg hvisit, hstop]
      · rw [write_get?, if_pos rfl]
      · intro id' hid
        rw [write_get?, if_neg hid]
      · rw [not_or] at hvisit
        simp [hvisit.1, stopForFence_artifact hstop]

theorem fence_fold (hnd : (es.map Prod.fst).Nodup) (hk : d.Keyed) (hm : d.KeysMatch)
    (hget : ∀ e ∈ es, d.jobs.get? e.1 = some e.2)
    (h : es.foldlM (fenceRow env jobId) (d, artifacts) = .ok (d', artifacts')) :
    Fenced env jobId es d d' artifacts artifacts' := by
  induction es generalizing d artifacts with
  | nil =>
    simp only [foldlM_nil] at h
    obtain ⟨rfl, rfl⟩ := Prod.mk.inj (pure_eq_ok.mp h)
    exact ⟨hk, hm, by simp, fun _ _ => rfl, by simp⟩
  | cons e es ih =>
    obtain ⟨id, j⟩ := e
    obtain ⟨hnot, hnd'⟩ := nodup_cons.mp (map_cons ▸ hnd)
    have hnot' : id ∉ es.map Prod.fst := hnot
    rw [foldlM_cons] at h
    obtain ⟨⟨d1, artifacts1⟩, hrow, hrest⟩ := bind_eq_ok.mp h
    obtain ⟨hk1, hm1, hid1, hother1, rfl⟩ :=
      fenceRow_spec hk hm (hget (id, j) mem_cons_self) hrow
    have hget1 : ∀ e ∈ es, d1.jobs.get? e.1 = some e.2 := by
      intro e he
      have hne : e.1 ≠ id := fun heq => hnot' (List.mem_map.mpr ⟨e, he, heq⟩)
      rw [hother1 e.1 hne]
      exact hget e (mem_cons_of_mem _ he)
    have hr := ih hnd' hk1 hm1 hget1 hrest
    refine ⟨hr.keyed, hr.keys, ?_, ?_, ?_⟩
    · intro id' j' hmem
      rcases mem_cons.mp hmem with heq | hmem
      · obtain ⟨rfl, rfl⟩ := Prod.mk.inj heq
        rw [hr.unvisited id' hnot']
        exact hid1
      · exact hr.visited id' j' hmem
    · intro id' hid'
      simp only [map_cons, mem_cons, not_or] at hid'
      rw [hr.unvisited id' hid'.2, hother1 id' hid'.1]
    · intro a
      rw [hr.handed a, mem_append]
      constructor
      · rintro ((ha | ha) | ⟨id', j', hmem, hrest⟩)
        · exact .inl ha
        · split at ha
          · next hq => exact .inr ⟨id, j, mem_cons_self, hq.1, hq.2, by simpa using ha⟩
          · cases ha
        · exact .inr ⟨id', j', mem_cons_of_mem _ hmem, hrest⟩
      · rintro (ha | ⟨id', j', hmem, hne, hq, hart⟩)
        · exact .inl (.inl ha)
        · rcases mem_cons.mp hmem with heq | hmem
          · obtain ⟨rfl, rfl⟩ := Prod.mk.inj heq
            exact .inl (.inr (by simp [hne, hq, hart]))
          · exact .inr ⟨id', j', hmem, hne, hq, hart⟩

/-- **`begin_factory_fence`, row by row.** -/
theorem beginFactoryFence_rows (hk : d.Keyed) (hm : d.KeysMatch)
    (h : d.jobs.entries.foldlM (fenceRow env jobId) (d, []) = .ok (d', artifacts)) :
    Fenced env jobId d.jobs.entries d d' [] artifacts ∧
      (∀ id, d.jobs.get? id = none → d'.jobs.get? id = none) ∧
      ∀ id j, d.jobs.get? id = some j →
        ∃ j', fencedRow env jobId id j = .ok j' ∧ d'.jobs.get? id = some j' := by
  have hget : ∀ e ∈ d.jobs.entries, d.jobs.get? e.1 = some e.2 :=
    fun e he => Dict.get?_eq_some_iff.mpr he
  have hr := fence_fold d.jobs.nodup hk hm hget h
  refine ⟨hr, ?_, ?_⟩
  · intro id hid
    rw [hr.unvisited id (Dict.get?_eq_none_iff.mp hid), hid]
  · intro id j hid
    exact hr.visited id j (Dict.get?_eq_some_iff.mp hid)

end AgenticKibana.Jobs
