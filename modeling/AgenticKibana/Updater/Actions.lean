import AgenticKibana.Updater.Contract

/-!
# What each action keeps

For every action, the invariant after it and what it leaves to the other threads.  A
write of a record is the only action with an argument: `Replaces` says which record may
be written, and both the worker's and the API's writes are instances of it.
-/

namespace AgenticKibana.Updater

open AgenticKibana.Library List

structure Advances (s t : World) : Prop where
  history : ∃ h, t.history = s.history ++ h
  record : ∀ id r, s.jobs.get? id = some r →
    ∃ r', t.jobs.get? id = some r' ∧ Grows r r'

variable {s t : World} {h : List Entry} {τ : Nat} {r : Job}

theorem Advances.trans {u : World} (h : Advances s t) (h' : Advances t u) : Advances s u := by
  obtain ⟨x, hx⟩ := h.history
  obtain ⟨y, hy⟩ := h'.history
  refine ⟨⟨x ++ y, by rw [hy, hx, append_assoc]⟩, ?_⟩
  intro id r hr
  obtain ⟨r1, hr1, hg1⟩ := h.record id r hr
  obtain ⟨r2, hr2, hg2⟩ := h'.record id r1 hr1
  exact ⟨r2, hr2, hg1.trans hg2⟩

theorem Advances.of_jobs (hjobs : t.jobs = s.jobs)
    (hh : t.history = s.history ++ h) : Advances s t := by
  refine ⟨⟨h, hh⟩, ?_⟩
  intro id r hr
  exact ⟨r, hjobs ▸ hr, Grows.refl r⟩

theorem Rely.advances (h : Rely τ s t) : Advances s t := by
  obtain ⟨extra, hh, -⟩ := h.history
  exact ⟨⟨extra, hh⟩, fun id r hr => (h.record id r hr).1⟩

theorem Answered.advances {request : Request} (h : Answered s request r)
    (ha : Advances s t) : Answered t request r := by
  cases request with
  | start body =>
    obtain ⟨r1, hr1, hkey, hrel⟩ := h
    obtain ⟨r2, hr2, hg⟩ := ha.record _ _ hr1
    exact ⟨r2, hr2, hg.startKey.trans hkey, by rw [hg.release]; exact hrel⟩
  | cancel id key =>
    obtain ⟨r1, hr1, hc⟩ := h
    obtain ⟨r2, hr2, hg⟩ := ha.record _ _ hr1
    exact ⟨r2, hr2, fun hrc => hg.cancelled (hc hrc)⟩
  | rollback id key =>
    obtain ⟨r1, hr1⟩ := h
    obtain ⟨r2, hr2, -⟩ := ha.record _ _ hr1
    exact ⟨r2, hr2⟩

def Indexed (s : World) : Prop :=
  ∀ id r key b, s.jobs.get? id = some r → r.operationIdempotency.get? key = some b →
    s.index.operations.get? key = some b

theorem Inv.frame (hI : Inv s) (hjobs : t.jobs = s.jobs)
    (hindex : t.index = s.index) (hh : t.history = s.history ++ h)
    (hswitched : ∀ τ id call ok, Entry.host τ id call ok ∈ h → call.switches = true →
      ∃ r, s.jobs.get? id = some r ∧ r.switchStarted = true)
    (hanswered : ∀ request r, Entry.accepted request r ∈ h → Answered s request r)
    (hworkers : ∀ id w, t.workers.get? id = some w → ∃ r, s.jobs.get? id = some r)
    (hguard : ∀ id, t.lifecycle = some id →
      t.marker = some id ∧ ∃ r, s.jobs.get? id = some r)
    (hindexed : t.up = true → t.lock = none → Indexed s)
    (hunreserved : t.lock = none → t.reserving = none) : Inv t := by
  have hadv : Advances s t := Advances.of_jobs hjobs hh
  constructor
  · rw [hjobs]
    exact hI.ids
  · rw [hjobs]
    exact hI.valid
  · intro id r hr
    rw [hjobs] at hr
    rw [hh]
    exact (hI.backed id r hr).append h
  · intro τ id call ok hm hs
    rw [hh] at hm
    rw [hjobs]
    rcases mem_append.mp hm with hm | hm
    · exact hI.switched τ id call ok hm hs
    · exact hswitched τ id call ok hm hs
  · intro request r hm
    rw [hh] at hm
    rcases mem_append.mp hm with hm | hm
    · exact (hI.answered request r hm).advances hadv
    · exact (hanswered request r hm).advances hadv
  · rw [hjobs]
    exact hI.startKeys
  · rw [hjobs, hindex]
    exact hI.indexJobs
  · rw [hjobs, hindex]
    exact hI.bindings
  · rw [hjobs]
    exact hI.unique
  · intro hup hlock
    rw [hjobs, hindex]
    exact hindexed hup hlock
  · intro hl
    rw [hh] at hl
    rw [hjobs]
    exact hI.single hl.of_append
  · intro id w hw
    rw [hjobs]
    exact hworkers id w hw
  · rw [hjobs]
    exact hguard
  · exact hunreserved

theorem Rely.frame (hlock : s.lock = some τ →
      t.lock = some τ ∧ t.reserving = s.reserving ∧
        ∀ id, s.reserving = some id → Unclaimed id s → Unclaimed id t)
    (hup : t.up = s.up) (hjobs : t.jobs = s.jobs) (hindex : t.index = s.index)
    (hh : t.history = s.history ++ h)
    (hby : ∀ e ∈ h, e.by ≠ some τ)
    (hreserving : ∀ id r, s.jobs.get? id = some r → s.reserving ≠ some id → t.reserving ≠ some id)
    (hworker : ∀ id mode, s.workers.get? id = some ⟨τ, mode⟩ →
      t.workers.get? id = some ⟨τ, mode⟩ ∧ (s.lifecycle = some id → t.lifecycle = some id)) :
    Rely τ s t where
  up := fun hu => hup.trans hu
  lock := fun hl => ⟨(hlock hl).1, hjobs, hindex, (hlock hl).2.1, (hlock hl).2.2⟩
  record := fun id r hr =>
    ⟨⟨r, hjobs ▸ hr, Grows.refl r⟩, hreserving id r hr⟩
  worker := fun id mode hw =>
    ⟨(hworker id mode hw).1, fun r hr => ⟨r, hjobs ▸ hr, Touched.refl r⟩, (hworker id mode hw).2⟩
  history := ⟨h, hh, hby⟩

theorem Rely.entry {e : Entry} (hby : e.by ≠ some τ) : Rely τ s (s.record e) := by
  refine Rely.frame (fun hl => ⟨hl, rfl, fun _ _ h => ⟨h.guard, h.worker⟩⟩) rfl rfl rfl rfl ?_
    (fun _ _ _ hres => hres) (fun _ _ hw => ⟨hw, fun hl => hl⟩)
  intro e' he
  rw [mem_singleton.mp he]
  exact hby

/-! ### Writing a record -/

def Bindable (s : World) (id : JobId) (key : Key) (b : Binding) : Prop :=
  b.job = id ∧ (∀ b', s.index.operations.get? key = some b' → b' = b) ∧
    ∀ id' r b', s.jobs.get? id' = some r → r.operationIdempotency.get? key = some b' → b' = b

structure Replaces (s : World) (job : Job) : Prop where
  grows : ∀ r, s.jobs.get? job.jobId = some r → Grows r job
  valid : Valid job
  backed : Backed s.history job.jobId job
  startKey : ∀ key, job.startIdempotencyKey = some key → ∀ id r, s.jobs.get? id = some r →
    r.startIdempotencyKey = some key → id = job.jobId
  keys : ∀ key b, job.operationIdempotency.get? key = some b → Bindable s job.jobId key b
  single : LaunchesActive s.history → job.status.active = true → ∀ id r,
    s.jobs.get? id = some r → r.status.active = true → id = job.jobId

variable {id : JobId}

theorem Inv.bindable (hI : Inv s) {key : Key} {b : Binding} (hrec : s.jobs.get? id = some r)
    (hb : r.operationIdempotency.get? key = some b) : Bindable s id key b := by
  refine ⟨(hI.bindings id r key b hrec hb).1, (hI.bindings id r key b hrec hb).2, ?_⟩
  intro id' r' b' hr' hb'
  exact hI.unique id' r' id r key b' b hr' hrec hb' hb

variable {job : Job}

theorem replaces_revised (hI : Inv s) (hrec : s.jobs.get? job.jobId = some r)
    (hgrows : Grows r job) (hvalid : Valid job) (hbacked : Backed s.history job.jobId job)
    (hkeys : ∀ key b, job.operationIdempotency.get? key = some b →
      r.operationIdempotency.get? key = some b ∨ Bindable s job.jobId key b)
    (hactive : LaunchesActive s.history → job.status.active = true → ∀ id' r',
      s.jobs.get? id' = some r' → r'.status.active = true → id' = job.jobId) :
    Replaces s job where
  grows := by
    intro r' hr'
    rw [hrec] at hr'
    cases hr'
    exact hgrows
  valid := hvalid
  backed := hbacked
  startKey := fun key hkey id' r' hr' hk' =>
    hI.startKeys id' r' job.jobId r key hr' hrec hk' (hgrows.startKey.symm.trans hkey)
  keys := by
    intro key b hb
    rcases hkeys key b hb with hb | hb
    · exact hI.bindable hrec hb
    · exact hb
  single := hactive

theorem get?_saveJob :
    (s.saveJob τ job).jobs.get? id = if id = job.jobId then some job else s.jobs.get? id :=
  Dict.get?_set _ _ _ _

theorem Advances.saveJob (τ : Nat) (hgrows : ∀ r, s.jobs.get? job.jobId = some r → Grows r job) :
    Advances s (s.saveJob τ job) := by
  refine ⟨⟨_, rfl⟩, ?_⟩
  intro id r hr
  rw [get?_saveJob]
  split
  · rename_i hid
    subst hid
    exact ⟨job, rfl, hgrows r hr⟩
  · exact ⟨r, hr, Grows.refl r⟩

theorem Inv.saveJob (hI : Inv s) (hlock : s.lock = some τ) (h : Replaces s job) :
    Inv (s.saveJob τ job) := by
  have hadv := Advances.saveJob τ h.grows
  -- A record after the write is the written one or was there before.
  have hcases : ∀ {id r}, (s.saveJob τ job).jobs.get? id = some r →
      (id = job.jobId ∧ r = job) ∨ (id ≠ job.jobId ∧ s.jobs.get? id = some r) := by
    intro id r hr
    rw [get?_saveJob] at hr
    split at hr
    · rename_i hid
      exact .inl ⟨hid, (Option.some.inj hr).symm⟩
    · rename_i hid
      exact .inr ⟨hid, hr⟩
  constructor
  · intro id r hr
    rcases hcases hr with ⟨rfl, rfl⟩ | ⟨-, hr⟩
    · rfl
    · exact hI.ids id r hr
  · intro id r hr
    rcases hcases hr with ⟨-, rfl⟩ | ⟨-, hr⟩
    · exact h.valid
    · exact hI.valid id r hr
  · intro id r hr
    rcases hcases hr with ⟨rfl, rfl⟩ | ⟨-, hr⟩
    · exact h.backed.append _
    · exact (hI.backed id r hr).append _
  · intro τ' id call ok hm hs
    have hm' : Entry.host τ' id call ok ∈ s.history := by
      rcases mem_append.mp hm with hm | hm
      · exact hm
      · cases mem_singleton.mp hm
    obtain ⟨r, hr, hsw⟩ := hI.switched τ' id call ok hm' hs
    obtain ⟨r', hr', hg⟩ := hadv.record id r hr
    exact ⟨r', hr', hg.switched hsw⟩
  · intro request r hm
    have hm' : Entry.accepted request r ∈ s.history := by
      rcases mem_append.mp hm with hm | hm
      · exact hm
      · cases mem_singleton.mp hm
    exact (hI.answered request r hm').advances hadv
  · intro id r id' r' key hr hr' hk hk'
    rcases hcases hr with ⟨rfl, rfl⟩ | ⟨-, hold⟩ <;>
      rcases hcases hr' with ⟨rfl, rfl⟩ | ⟨-, hold'⟩
    · rfl
    · exact (h.startKey key hk id' r' hold' hk').symm
    · exact h.startKey key hk' id r hold hk
    · exact hI.startKeys id r id' r' key hold hold' hk hk'
  · intro key id hk
    obtain ⟨r, hr, hrk⟩ := hI.indexJobs key id hk
    obtain ⟨r', hr', hg⟩ := hadv.record id r hr
    exact ⟨r', hr', hg.startKey.trans hrk⟩
  · intro id r key b hr hb
    rcases hcases hr with ⟨rfl, rfl⟩ | ⟨-, hr⟩
    · exact ⟨(h.keys key b hb).1, (h.keys key b hb).2.1⟩
    · exact hI.bindings id r key b hr hb
  · intro id r id' r' key b b' hr hr' hb hb'
    rcases hcases hr with ⟨rfl, rfl⟩ | ⟨-, hold⟩ <;>
      rcases hcases hr' with ⟨rfl, rfl⟩ | ⟨-, hold'⟩
    · exact Option.some.inj (hb.symm.trans hb')
    · exact ((h.keys key b hb).2.2 id' r' b' hold' hb').symm
    · exact (h.keys key b' hb').2.2 id r b hold hb
    · exact hI.unique id r id' r' key b b' hold hold' hb hb'
  · intro _ hnone
    have hnone' : s.lock = none := hnone
    rw [hlock] at hnone'
    cases hnone'
  · intro hl id r id' r' hr hr' ha ha'
    have hl' : LaunchesActive s.history := hl.of_append
    rcases hcases hr with ⟨rfl, rfl⟩ | ⟨-, hold⟩ <;>
      rcases hcases hr' with ⟨rfl, rfl⟩ | ⟨-, hold'⟩
    · rfl
    · exact (h.single hl' ha id' r' hold' ha').symm
    · exact h.single hl' ha' id r hold ha
    · exact hI.single hl' id r id' r' hold hold' ha ha'
  · intro id w hw
    obtain ⟨r, hr⟩ := hI.registered id w hw
    obtain ⟨r', hr', -⟩ := hadv.record id r hr
    exact ⟨r', hr'⟩
  · intro id hl
    obtain ⟨hm, r, hr⟩ := hI.guard id hl
    obtain ⟨r', hr', -⟩ := hadv.record id r hr
    exact ⟨hm, r', hr'⟩
  · intro hnone
    have hnone' : s.lock = none := hnone
    rw [hlock] at hnone'
    cases hnone'

/-- What the others rely on after a write under the lock: the worker of the record, if
another thread is it, sees its record touched. -/
theorem Rely.saveJob {τ' : Nat} (hne : τ' ≠ τ) (hlock : s.lock = some τ)
    (hgrows : ∀ r, s.jobs.get? job.jobId = some r → Grows r job)
    (htouched : ∀ mode r, s.workers.get? job.jobId = some ⟨τ', mode⟩ →
      s.jobs.get? job.jobId = some r → Touched r job) : Rely τ' s (s.saveJob τ job) := by
  have hadv := Advances.saveJob τ hgrows
  refine ⟨fun hu => hu, ?_, ?_, ?_, ?_⟩
  · intro hl
    rw [hlock] at hl
    exact absurd (Option.some.inj hl).symm hne
  · intro id r hr
    exact ⟨hadv.record id r hr, fun hres => hres⟩
  · intro id mode hw
    refine ⟨hw, ?_, fun hl => hl⟩
    intro r hr
    rw [get?_saveJob]
    split
    · rename_i hid
      subst hid
      exact ⟨job, rfl, htouched mode r hw hr⟩
    · exact ⟨r, hr, Touched.refl r⟩
  · refine ⟨_, rfl, ?_⟩
    intro e he
    cases mem_singleton.mp he
    intro hby
    exact hne (Option.some.inj hby).symm

/-- The index may be written: its entries agree with the records. -/
structure Reindexes (s : World) (index : Index) : Prop where
  jobs : ∀ key id, index.jobs.get? key = some id →
    ∃ r, s.jobs.get? id = some r ∧ r.startIdempotencyKey = some key
  operations : ∀ id r key b, s.jobs.get? id = some r → r.operationIdempotency.get? key = some b →
    ∀ b', index.operations.get? key = some b' → b' = b

theorem Inv.saveIndex {index : Index} (hI : Inv s) (h : Reindexes s index)
    (hindexed : s.up = true → s.lock = none → Indexed { s with index := index }) :
    Inv { s with index := index } where
  ids := hI.ids
  valid := hI.valid
  backed := hI.backed
  switched := hI.switched
  answered := fun request r hm =>
    (hI.answered request r hm).advances (Advances.of_jobs (h := []) rfl (by simp))
  startKeys := hI.startKeys
  indexJobs := h.jobs
  bindings := fun id r key b hr hb => ⟨(hI.bindings id r key b hr hb).1,
    h.operations id r key b hr hb⟩
  unique := hI.unique
  indexed := hindexed
  single := hI.single
  registered := hI.registered
  guard := hI.guard
  unreserved := hI.unreserved

/-! ### What each action owes -/

section Owes

variable {τ : Nat} {s : World}

variable (hI : Inv s)

include hI

theorem owes_of_read {a : Act} {K : a.Reply → World → Prop} (hbefore : contract.Before τ a s)
    (h : ∀ fresh answer t r new, effect τ fresh a answer s = some (t, r, new) →
      t = s ∧ new = [] ∧ K r s) :
    updater.Owes contract τ a s K := by
  refine ⟨hbefore, ?_⟩
  intro fresh answer t r new _ hp
  obtain ⟨rfl, rfl, hK⟩ := h fresh answer t r new hp
  refine ⟨hI, fun τ' _ => Rely.refl τ' t, ?_, hK⟩
  intro i n hn
  simp at hn

variable {id : JobId}

theorem owes_loadJob {K : Option Job → World → Prop} (h : K (s.jobs.get? id) s) :
    updater.Owes contract τ (.loadJob id) s K := by
  refine owes_of_read hI trivial ?_
  rintro fresh answer t r new hp
  cases hp
  exact ⟨rfl, rfl, h⟩

theorem owes_listJobs {K : List Job → World → Prop} (h : K s.listJobs s) :
    updater.Owes contract τ .listJobs s K := by
  refine owes_of_read hI trivial ?_
  rintro fresh answer t r new hp
  cases hp
  exact ⟨rfl, rfl, h⟩

theorem owes_readIndex {K : Index → World → Prop} (h : K s.index s) :
    updater.Owes contract τ .readIndex s K := by
  refine owes_of_read hI trivial ?_
  rintro fresh answer t r new hp
  cases hp
  exact ⟨rfl, rfl, h⟩

theorem owes_loadPreflight {token : Token} {K : Option Preflight → World → Prop}
    (h : ∀ r, K r s) : updater.Owes contract τ (.loadPreflight token) s K := by
  refine owes_of_read hI trivial ?_
  rintro fresh answer t r new hp
  cases hp
  exact ⟨rfl, rfl, h _⟩

theorem owes_now {K : Time → World → Prop} (h : ∀ now, K now s) :
    updater.Owes contract τ .now s K := by
  refine owes_of_read hI trivial ?_
  rintro fresh answer t r new hp
  cases hp
  exact ⟨rfl, rfl, h _⟩

theorem owes_fault {K : Bool → World → Prop} (h : ∀ b, K b s) :
    updater.Owes contract τ .fault s K := by
  refine owes_of_read hI trivial ?_
  rintro fresh answer t r new hp
  cases hp
  exact ⟨rfl, rfl, h _⟩

variable {K : Unit → World → Prop}

theorem owes_lock (h : s.lock = none → K () { s with lock := some τ }) :
    updater.Owes contract τ .lock s K := by
  refine ⟨trivial, ?_⟩
  intro fresh answer t r new _ hp
  simp only [updater, effect] at hp
  split at hp
  · rename_i hnone
    cases hp
    refine ⟨?_, ?_, fun i n hn => by simp at hn, h hnone⟩
    · exact hI.frame (h := []) rfl rfl (by simp) (by simp) (by simp) hI.registered hI.guard
        (fun _ hl => by cases hl) (fun hl => by cases hl)
    · intro τ' _
      refine Rely.frame (h := []) ?_ rfl rfl rfl (by simp) (by simp) (fun _ _ _ hres => hres)
        (fun _ _ hw => ⟨hw, fun hl => hl⟩)
      intro hl
      rw [hnone] at hl
      cases hl
  · cases hp

theorem owes_unlock (hlock : s.lock = some τ)
    (hindexed : Indexed s) (h : K () { s with lock := none, reserving := none }) :
    updater.Owes contract τ .unlock s K := by
  refine ⟨trivial, ?_⟩
  intro fresh answer t r new _ hp
  cases hp
  refine ⟨?_, ?_, fun i n hn => by simp at hn, h⟩
  · exact hI.frame (h := []) rfl rfl (by simp) (by simp) (by simp) hI.registered hI.guard
      (fun _ _ => hindexed) (fun _ => rfl)
  · intro τ' hne
    refine Rely.frame (h := []) ?_ rfl rfl rfl (by simp) (by simp) (fun _ _ _ _ => by simp)
      (fun _ _ hw => ⟨hw, fun hl => hl⟩)
    intro hl
    rw [hlock] at hl
    exact absurd (Option.some.inj hl).symm hne

theorem owes_saveJob (hlock : s.lock = some τ) (hr : Replaces s job)
    (htouched : ∀ τ' mode r, τ' ≠ τ → s.workers.get? job.jobId = some ⟨τ', mode⟩ →
      s.jobs.get? job.jobId = some r → Touched r job) (h : K () (s.saveJob τ job)) :
    updater.Owes contract τ (.saveJob job) s K := by
  refine ⟨trivial, ?_⟩
  intro fresh answer t r new _ hp
  cases hp
  refine ⟨hI.saveJob hlock hr, ?_, fun i n hn => by simp at hn, h⟩
  intro τ' hne
  exact Rely.saveJob hne hlock hr.grows fun mode r hw => htouched τ' mode r hne hw

theorem owes_saveIndex {index : Index}
    (hlock : s.lock = some τ) (hr : Reindexes s index) (h : K () { s with index := index }) :
    updater.Owes contract τ (.saveIndex index) s K := by
  refine ⟨trivial, ?_⟩
  intro fresh answer t r new _ hp
  cases hp
  refine ⟨hI.saveIndex hr ?_, ?_, fun i n hn => by simp at hn, h⟩
  · intro _ hnone
    rw [hlock] at hnone
    cases hnone
  · intro τ' hne
    refine ⟨fun hu => hu, ?_, fun id r hr => ⟨⟨r, hr, Grows.refl r⟩, fun h => h⟩,
      fun id mode hw => ⟨hw, fun r hr => ⟨r, hr, Touched.refl r⟩, fun hl => hl⟩,
      ⟨[], by simp⟩⟩
    intro hl
    rw [hlock] at hl
    exact absurd (Option.some.inj hl).symm hne

/-- Taking the lifecycle guard of a job that has a record and is not being reserved by
another thread. -/
theorem owes_beginLifecycle {K : Except Failure Unit → World → Prop}
    (hrecord : ∃ r, s.jobs.get? id = some r) (hfree : s.reserving ≠ some id ∨ s.lock = some τ)
    (hok : ∀ t, t.jobs = s.jobs → t.index = s.index → t.workers = s.workers → t.lock = s.lock →
      t.reserving = s.reserving → t.history = s.history → t.up = s.up →
      t.lifecycle = some id → K (.ok ()) t)
    (herr : ∀ e, s.lifecycle ≠ some id → K (.error e) (s.record (.refused τ id))) :
    updater.Owes contract τ (.beginLifecycle id) s K := by
  refine ⟨trivial, ?_⟩
  intro fresh answer t r new _ hp
  simp only [updater, effect] at hp
  -- The guard is held already, or it was free and is taken, or it is refused.
  have hcases : (s.beginLifecycle id answer.fails = (s, .ok ()) ∧ s.lifecycle = some id) ∨
      (s.beginLifecycle id answer.fails =
        ({ s with marker := some id, lifecycle := some id }, .ok ()) ∧ s.lifecycle = none) ∨
      (∃ e, s.beginLifecycle id answer.fails = (s, .error e) ∧ s.lifecycle ≠ some id) := by
    unfold World.beginLifecycle
    cases hl : s.lifecycle with
    | some job =>
      by_cases hjob : job = id
      · subst hjob
        exact .inl ⟨by simp, rfl⟩
      · refine .inr (.inr ⟨_, by simp [hjob]; rfl, ?_⟩)
        intro heq
        exact hjob (Option.some.inj heq)
    | none =>
      by_cases hf : answer.fails = true
      · exact .inr (.inr ⟨_, by simp [hf]; rfl, by simp⟩)
      · by_cases hm : s.marker.any (· ≠ id) = true
        · exact .inr (.inr ⟨_, by simp only [if_neg hf, if_pos hm]; rfl, by simp⟩)
        · exact .inr (.inl ⟨by simp only [if_neg hf, if_neg hm], rfl⟩)
  rcases hcases with ⟨heq, hheld⟩ | ⟨heq, hnone⟩ | ⟨e, heq, hne⟩
  · rw [heq] at hp
    cases hp
    exact ⟨hI, fun τ' _ => Rely.refl τ' _, fun i n hn => by simp at hn,
      hok _ rfl rfl rfl rfl rfl rfl rfl hheld⟩
  · rw [heq] at hp
    cases hp
    refine ⟨?_, ?_, fun i n hn => by simp at hn, hok _ rfl rfl rfl rfl rfl rfl rfl rfl⟩
    · refine hI.frame (h := []) rfl rfl (by simp) (by simp) (by simp) hI.registered
        ?_ hI.indexed hI.unreserved
      intro id' hl
      cases hl
      exact ⟨rfl, hrecord⟩
    · intro τ' hne
      refine Rely.frame (h := []) ?_ rfl rfl rfl (by simp) (by simp) (fun _ _ _ hres => hres) ?_
      · intro hl
        refine ⟨hl, rfl, ?_⟩
        intro id' hid' hun
        refine ⟨fun heq' => ?_, hun.worker⟩
        simp only [Option.some.injEq] at heq'
        subst heq'
        rcases hfree with hfree | hfree
        · exact hfree hid'
        · rw [hfree] at hl
          exact hne (Option.some.inj hl).symm
      · intro id' mode hw
        refine ⟨hw, fun hl => ?_⟩
        rw [hnone] at hl
        cases hl
  · rw [heq] at hp
    cases hp
    refine ⟨?_, ?_, fun i n hn => by simp at hn, herr e hne⟩
    · exact hI.frame rfl rfl rfl (by simp) (by simp) hI.registered hI.guard hI.indexed
        hI.unreserved
    · intro τ' hne'
      exact Rely.entry fun hby => hne' (Option.some.inj hby).symm

theorem owes_releaseLifecycle {terminal : Bool} {K : Except Failure Unit → World → Prop}
    (hmine : (∃ mode, s.workers.get? id = some ⟨τ, mode⟩) ∨ s.lifecycle ≠ some id)
    (hok : ∀ t, t.jobs = s.jobs → t.index = s.index → t.workers = s.workers → t.lock = s.lock →
      t.reserving = s.reserving → t.history = s.history → K (.ok ()) t)
    (herr : ∀ e, s.lifecycle ≠ some id → K (.error e) s) :
    updater.Owes contract τ (.releaseLifecycle id terminal) s K := by
  refine ⟨trivial, ?_⟩
  intro fresh answer t r new _ hp
  have hcases : (s.releaseLifecycle id terminal = (s, .ok ()) ) ∨
      (s.lifecycle = some id ∧ ∃ marker, s.releaseLifecycle id terminal =
        ({ s with marker := marker, lifecycle := none }, .ok ())) ∨
      (∃ e, s.releaseLifecycle id terminal = (s, .error e) ∧ s.lifecycle ≠ some id) := by
    unfold World.releaseLifecycle
    cases hl : s.lifecycle with
    | none => exact .inl rfl
    | some job =>
      by_cases hjob : job = id
      · subst hjob
        refine .inr (.inl ⟨rfl, ?_⟩)
        cases terminal with
        | true => exact ⟨none, by simp [(hI.guard job hl).1]⟩
        | false => exact ⟨s.marker, by simp⟩
      · refine .inr (.inr ⟨_, by simp [hjob]; rfl, ?_⟩)
        intro heq
        exact hjob (Option.some.inj heq)
  simp only [updater, effect] at hp
  rcases hcases with heq | ⟨hheld, marker, heq⟩ | ⟨e, heq, hne⟩
  · rw [heq] at hp
    cases hp
    exact ⟨hI, fun τ' _ => Rely.refl τ' _, fun i n hn => by simp at hn,
      hok _ rfl rfl rfl rfl rfl rfl⟩
  · rw [heq] at hp
    cases hp
    refine ⟨?_, ?_, fun i n hn => by simp at hn, hok _ rfl rfl rfl rfl rfl rfl⟩
    · exact hI.frame (h := []) rfl rfl (by simp) (by simp) (by simp) hI.registered
        (fun _ hl => by cases hl) hI.indexed hI.unreserved
    · intro τ' hne
      refine Rely.frame (h := []) (fun hl =>
        ⟨hl, rfl, fun _ _ hun => ⟨by simp, hun.worker⟩⟩) rfl rfl
        rfl (by simp) (by simp) (fun _ _ _ hres => hres) ?_
      intro id' mode hw
      refine ⟨hw, fun hl => ?_⟩
      rw [hheld] at hl
      cases hl
      rcases hmine with ⟨mode', hmine⟩ | hmine
      · rw [hmine] at hw
        cases hw
        exact absurd rfl hne
      · exact absurd hheld hmine
  · rw [heq] at hp
    cases hp
    exact ⟨hI, fun τ' _ => Rely.refl τ' _, fun i n hn => by simp at hn, herr e hne⟩

theorem owes_host {call : HostCall} {K : Except Failure call.Value → World → Prop}
    (hswitch : call.switches = true → SwitchReady s id)
    (hok : ∀ v, K (.ok v) (s.record (.host τ id call true)))
    (herr : ∀ e, K (.error e) (s.record (.host τ id call false))) :
    updater.Owes contract τ (.host id call) s K := by
  refine ⟨hswitch, ?_⟩
  intro fresh answer t r new _ hp
  have hkeep : ∀ ok, Inv (s.record (.host τ id call ok)) ∧
      ∀ τ', τ' ≠ τ → Rely τ' s (s.record (.host τ id call ok)) := by
    intro ok
    refine ⟨?_, ?_⟩
    · refine hI.frame rfl rfl rfl ?_ (by simp) hI.registered hI.guard hI.indexed hI.unreserved
      intro τ' id' call' ok' hm hs
      cases mem_singleton.mp hm
      obtain ⟨r, b, hr, -, -, -, hsw⟩ := (hswitch hs).record
      exact ⟨r, hr, hsw⟩
    · intro τ' hne
      exact Rely.entry fun hby => hne (Option.some.inj hby).symm
  simp only [updater, effect] at hp
  cases hf : answer.fails with
  | true =>
    simp only [hf] at hp
    cases hp
    exact ⟨(hkeep false).1, (hkeep false).2, fun i n hn => by simp at hn, herr _⟩
  | false =>
    simp only [hf] at hp
    cases hp
    exact ⟨(hkeep true).1, (hkeep true).2, fun i n hn => by simp at hn, hok _⟩

theorem owes_newId {K : JobId → World → Prop} (hlock : s.lock = some τ)
    (h : ∀ id, s.jobs.get? id = none → K id { s with reserving := some id }) :
    updater.Owes contract τ .newId s K := by
  refine ⟨trivial, ?_⟩
  intro fresh answer t r new _ hp
  simp only [updater, effect] at hp
  split at hp
  · cases hp
  · rename_i hnew
    have hnone : s.jobs.get? answer.fresh = none := by
      simpa [Dict.contains] using hnew
    cases hp
    refine ⟨?_, ?_, fun i n hn => by simp at hn, h _ hnone⟩
    · exact hI.frame (h := []) rfl rfl (by simp) (by simp) (by simp) hI.registered hI.guard
        hI.indexed fun hl => by rw [hlock] at hl; cases hl
    · intro τ' hne
      refine Rely.frame (h := []) ?_ rfl rfl rfl (by simp) (by simp) ?_ fun _ _ hw =>
        ⟨hw, fun hl => hl⟩
      · intro hl
        rw [hlock] at hl
        exact absurd (Option.some.inj hl).symm hne
      · intro id r hr _ heq
        cases heq
        rw [hnone] at hr
        cases hr

variable {mode : Bool}

omit hI in
theorem entry_of_register {fresh : Nat} (hup : s.up = true)
    (hfree : s.reserving ≠ some id) (hbelow : ∀ e ∈ s.history, ∀ τ, e.by = some τ → τ < fresh) :
    WorkerEntry fresh id mode (s.register fresh id mode) := by
  refine ⟨hup, by simp [World.register], hfree, ?_, ?_⟩
  · intro hl r hr
    have hany := hl id mode (s.jobs.get? id) (mem_append_right _ (mem_singleton.mpr rfl))
    have hr' : s.jobs.get? id = some r := hr
    rw [hr'] at hany
    exact hany
  · intro e he
    rcases mem_append.mp he with he | he
    · intro hby
      exact absurd (hbelow e he fresh hby) (lt_irrefl _)
    · cases mem_singleton.mp he
      simp [Entry.by]

theorem owes_launch (hup : s.up = true) (hrecord : ∃ r, s.jobs.get? id = some r)
    (hfree : s.reserving ≠ some id)
    (h : ∀ t, t.jobs = s.jobs → t.index = s.index → t.lock = s.lock → t.up = s.up →
      (∃ h, t.history = s.history ++ h) → K () t) :
    updater.Owes contract τ (.launch id mode) s K := by
  refine ⟨trivial, ?_⟩
  intro fresh answer t r new hbelow hp
  simp only [updater, effect] at hp
  split at hp
  · split at hp
    · cases hp
      exact ⟨hI, fun τ' _ => Rely.refl τ' _, fun i n hn => by simp at hn,
        h _ rfl rfl rfl rfl ⟨[], by simp⟩⟩
    · cases hp
  · rename_i hnone
    cases hp
    refine ⟨?_, ?_, ?_, h _ rfl rfl rfl rfl ⟨_, rfl⟩⟩
    · refine hI.frame rfl rfl rfl (by simp) (by simp) ?_ hI.guard hI.indexed hI.unreserved
      intro id' w hw
      simp only [World.register, Dict.get?_set] at hw
      split at hw
      · rename_i hid
        exact hid ▸ hrecord
      · exact hI.registered id' w hw
    · intro τ' hne
      refine Rely.frame (fun hl => ⟨hl, rfl, ?_⟩) rfl rfl rfl rfl ?_ (fun _ _ _ hres => hres) ?_
      · intro id' hid' hun
        refine ⟨hun.guard, ?_⟩
        simp only [World.register, Dict.get?_set]
        rw [if_neg fun heq : id' = id => hfree (heq ▸ hid')]
        exact hun.worker
      · intro e he
        cases mem_singleton.mp he
        simp [Entry.by]
      · intro id' mode' hw
        refine ⟨?_, fun hl => hl⟩
        simp only [World.register, Dict.get?_set]
        split
        · rename_i hid
          rw [hid, hnone] at hw
          cases hw
        · exact hw
    · intro i n hn
      cases i with
      | zero =>
        simp only [List.getElem?_cons_zero, Option.some.injEq] at hn
        subst hn
        exact entry_of_register hup hfree hbelow.history
      | succ i => simp at hn

end Owes

end AgenticKibana.Updater
