import AgenticKibana.Updater.Worker

/-!
# The API calls

`cancel` and `request_rollback` read and write the ledger in one locked section.
While a call holds the lock the ledger is what it left there (`Locked`); each write is
allowed by `Replaces` or `Reindexes`, and an accepted call leaves what `Answered` says.
-/

namespace AgenticKibana.Updater

open AgenticKibana.Library Threads

variable {α β : Type} {τ : Nat} {jobs : Dict JobId Job} {index : Index}

/-! ### The ledger under the lock -/

def Complete (jobs : Dict JobId Job) (index : Index) : Prop :=
  ∀ id r key b, jobs.get? id = some r → r.operationIdempotency.get? key = some b →
    index.operations.get? key = some b

structure Locked (τ : Nat) (jobs : Dict JobId Job) (index : Index) (s : World) : Prop where
  lock : s.lock = some τ
  jobs : s.jobs = jobs
  index : s.index = index
  up : s.up = true

variable {s : World}

theorem Locked.rely {t : World} (h : Locked τ jobs index s) (hr : Rely τ s t) :
    Locked τ jobs index t := by
  obtain ⟨hlock, hjobs, hindex, -⟩ := hr.lock h.lock
  exact ⟨hlock, hjobs.trans h.jobs, hindex.trans h.index, hr.up h.up⟩

theorem Locked.holds (h : Locked τ jobs index s) (hc : Complete jobs index) : Holds τ s := by
  refine ⟨h.lock, ?_⟩
  intro id r key b hr hb
  rw [h.jobs] at hr
  rw [h.index]
  exact hc id r key b hr hb

theorem mem_listJobs {r : Job} : r ∈ s.listJobs ↔ ∃ id, s.jobs.get? id = some r := by
  simp only [World.listJobs, List.mem_insertionSort, Dict.mem_values_iff]

section Sections

variable {Q : α → Unit → World → Prop} {E : Failure → Unit → World → Prop} {l : Unit} {s : World}
  {job : Job}

section

variable (h : Locked τ jobs index s)

include h

theorem wps_readIndex_bind {f : Index → Service Unit α}
    (hk : ∀ t, Locked τ jobs index t → Rely τ s t → wps τ Q E (f index) l t) :
    wps τ Q E (Service.readIndex >>= f) l s := by
  refine wps_act_bind fun t ht hI => owes_readIndex hI fun _ => ?_
  have h' := h.rely ht
  rw [h'.index]
  exact hk t h' ht

theorem wps_loadJob_bind {f : Option Job → Service Unit α} {id : JobId}
    (hk : ∀ t, Locked τ jobs index t → Rely τ s t → wps τ Q E (f (jobs.get? id)) l t) :
    wps τ Q E (Service.loadJob id >>= f) l s := by
  refine wps_act_bind fun t ht hI => owes_loadJob hI fun _ => ?_
  have h' := h.rely ht
  rw [h'.jobs]
  exact hk t h' ht

theorem wps_listJobs_bind {f : List Job → Service Unit α}
    (hk : ∀ t list, (∀ r, r ∈ list ↔ ∃ id, jobs.get? id = some r) → Locked τ jobs index t →
      Rely τ s t → wps τ Q E (f list) l t) :
    wps τ Q E (Service.listJobs >>= f) l s := by
  refine wps_act_bind fun t ht hI => owes_listJobs hI fun _ => ?_
  have h' := h.rely ht
  refine hk t t.listJobs (fun r => ?_) h' ht
  rw [mem_listJobs, h'.jobs]

theorem wps_saveJob {Q : Unit → Unit → World → Prop}
    (hr : ∀ t, Rely τ s t → Inv t → Locked τ jobs index t → Replaces t job)
    (htouched : ∀ t τ' mode r, Rely τ s t → Inv t → τ' ≠ τ →
      t.workers.get? job.jobId = some ⟨τ', mode⟩ → jobs.get? job.jobId = some r → Touched r job)
    (hQ : ∀ t t', Rely τ s t → Inv t → Rely τ (t.saveJob τ job) t' → Inv t' →
      Locked τ (jobs.set job.jobId job) index t' → Q () l t') :
    wps τ Q E (Service.saveJob job) l s := by
  refine wps_act (a := .saveJob job) fun t ht hI => ?_
  have h' := h.rely ht
  refine owes_saveJob hI h'.lock (hr t ht hI h') ?_ fun t' ht' hI' => ?_
  · intro τ' mode r hne hw hrec
    rw [h'.jobs] at hrec
    exact htouched t τ' mode r ht hI hne hw hrec
  · have hnow : Locked τ (jobs.set job.jobId job) index (t.saveJob τ job) :=
      ⟨h'.lock, by rw [← h'.jobs]; rfl, h'.index, h'.up⟩
    exact hQ t t' ht hI ht' hI' (hnow.rely ht')

theorem wps_saveIndex {index' : Index} {Q : Unit → Unit → World → Prop}
    (hr : ∀ t, Inv t → Locked τ jobs index t → Reindexes t index')
    (hQ : ∀ t t', Rely τ s t → Rely τ { t with index := index' } t' → Inv t' →
      Locked τ jobs index' t' → Q () l t') :
    wps τ Q E (Service.saveIndex index') l s := by
  refine wps_act (a := .saveIndex index') fun t ht hI => ?_
  have h' := h.rely ht
  refine owes_saveIndex hI h'.lock (hr t hI h') fun t' ht' hI' => ?_
  have hnow : Locked τ jobs index' { t with index := index' } := ⟨h'.lock, h'.jobs, rfl, h'.up⟩
  exact hQ t t' ht ht' hI' (hnow.rely ht')

end

/-! ### Binding an operation key -/

variable {b : Binding} {t : World} {job' : Job} {keys : Index} {record : Option Job} {repair : Bool}

theorem operationLookup_replay {key : Key}
    (h : Service.operationLookup keys record key b = .replay job repair) :
    record = some job ∧ job.operationIdempotency.get? key = some b := by
  unfold Service.operationLookup at h
  split at h
  · cases h
  · split at h
    · rename_i bound hbound
      split at h
      · cases h
      · rename_i hno
        cases h
        rw [not_or, not_not] at hno
        exact ⟨rfl, hno.1 ▸ hbound⟩
    · split at h
      · cases h
      · cases h

theorem operationLookup_fresh {key : Key}
    (h : Service.operationLookup keys record key b = .fresh job) :
    record = some job ∧ job.operationIdempotency.get? key = none ∧
      ∀ b', keys.operations.get? key = some b' → b' = b := by
  unfold Service.operationLookup at h
  split at h
  · cases h
  · split at h
    · split at h
      · cases h
      · cases h
    · rename_i hnone
      split at h
      · cases h
      · rename_i hno
        cases h
        refine ⟨rfl, hnone, ?_⟩
        intro b' hb'
        rw [hb'] at hno
        simpa using hno

theorem reindexes_bind {key : Key} (hI : Inv t)
    (hb : ∀ id r b', t.jobs.get? id = some r → r.operationIdempotency.get? key = some b' → b' = b) :
    Reindexes t (Service.Index.bind t.index key b) := by
  refine ⟨hI.indexJobs, ?_⟩
  intro id r key' b1 hr hb1 b2 hb2
  simp only [Service.Index.bind, Dict.get?_set] at hb2
  split at hb2
  · rename_i hkey
    subst hkey
    cases hb2
    exact (hb id r b1 hr hb1).symm
  · exact (hI.bindings id r key' b1 hr hb1).2 b2 hb2

theorem Complete.bindable (hc : Complete jobs index) {id : JobId} {key : Key}
    (h : Locked τ jobs index t) (hb : b.job = id)
    (hindex : ∀ b', index.operations.get? key = some b' → b' = b) : Bindable t id key b := by
  refine ⟨hb, ?_, ?_⟩
  · rw [h.index]
    exact hindex
  · intro id' r b' hr hb'
    rw [h.jobs] at hr
    exact hindex b' (hc id' r key b' hr hb')

theorem Complete.bind (hc : Complete jobs index) {id : JobId} {key : Key}
    (hrec : jobs.get? id = some job)
    (hops : job'.operationIdempotency = job.operationIdempotency.set key b)
    (hindex : ∀ b', index.operations.get? key = some b' → b' = b) :
    Complete (jobs.set job'.jobId job') (Service.Index.bind index key b) := by
  intro id' r key' b' hr hb'
  simp only [Service.Index.bind, Dict.get?_set]
  split
  · rename_i hkey
    subst hkey
    rw [Dict.get?_set] at hr
    split at hr
    · cases hr
      rw [hops, Dict.get?_set_self] at hb'
      exact hb'.symm ▸ rfl
    · exact congrArg some (hindex b' (hc id' r key' b' hr hb')).symm
  · rename_i hkey
    rw [Dict.get?_set] at hr
    split at hr
    · cases hr
      rw [hops, Dict.get?_set_of_ne _ _ hkey] at hb'
      exact hc id job key' b' hrec hb'
    · exact hc id' r key' b' hr hb'

theorem keysWithin_bound {key : Key} (hnone : job.operationIdempotency.get? key = none)
    (hops : job'.operationIdempotency = job.operationIdempotency.set key b) :
    KeysWithin job job' := by
  intro k v hk
  rw [hops, Dict.get?_set]
  split
  · rename_i hkey
    subst hkey
    rw [hnone] at hk
    cases hk
  · exact hk

theorem keys_of_bound {key : Key}
    (hops : job'.operationIdempotency = job.operationIdempotency.set key b) {k : Key}
    {v : Binding} (hk : job'.operationIdempotency.get? k = some v) :
    job.operationIdempotency.get? k = some v ∨ k = key ∧ v = b := by
  rw [hops, Dict.get?_set] at hk
  split at hk
  · rename_i hkey
    cases hk
    exact .inr ⟨hkey, rfl⟩
  · exact .inl hk

theorem wps_repairIndex {m : Service Unit α} {id : JobId} {key : Key} (h : Locked τ jobs index s)
    (hc : Complete jobs index) (hrec : jobs.get? id = some job)
    (hb : job.operationIdempotency.get? key = some b)
    (hk : ∀ t index', Locked τ jobs index' t → Complete jobs index' → wps τ Q E m l t) :
    wps τ Q E (do
      Routine.when repair (Service.saveIndex (Service.Index.bind index key b))
      m) l s := by
  have hindex : index.operations.get? key = some b := hc id job key b hrec hb
  have hkeep : Complete jobs (Service.Index.bind index key b) := by
    intro id' r key' b' hr hb'
    simp only [Service.Index.bind, Dict.get?_set]
    split
    · rename_i hkey
      subst hkey
      exact hindex.symm.trans (hc id' r key' b' hr hb')
    · exact hc id' r key' b' hr hb'
  refine wps_bind (wpr_when (fun _ => ?_) fun _ t ht _ => hk t index (h.rely ht) hc)
  refine wps_saveIndex h (fun t hI ht => ?_) fun _ t' _ _ _ ht' => hk t' _ ht' hkeep
  rw [← ht.index]
  refine reindexes_bind hI fun id' r b' hr hb' => ?_
  rw [ht.jobs] at hr
  exact Option.some.inj ((hc id' r key b' hr hb').symm.trans hindex)

theorem wps_saveBound {a : α} {id : JobId} {key : Key} (h : Locked τ jobs index s)
    (hc : Complete jobs index) (hrec : jobs.get? id = some job)
    (hnone : job.operationIdempotency.get? key = none) (hid : job'.jobId = id)
    (hops : job'.operationIdempotency = job.operationIdempotency.set key b)
    (hindex : ∀ b', index.operations.get? key = some b' → b' = b)
    (hreplaces : ∀ t, Inv t → Locked τ jobs index t → Replaces t job')
    (htouched : Touched job job')
    (hQ : ∀ t, t.up = true → Holds τ t → t.jobs.get? id = some job' → Q a l t) : wps τ Q E (do
      Service.saveJob job'
      Service.saveIndex (Service.Index.bind index key b)
      pure a) l s := by
  refine wps_bind (wps_saveJob h (fun t _ hI ht => hreplaces t hI ht) ?_ ?_)
  · intro t τ' mode r _ _ _ _ hr
    rw [hid, hrec] at hr
    cases hr
    exact htouched
  · intro t t1 _ _ _ _ h1
    refine wps_bind (wps_saveIndex h1 ?_ fun _ t2 _ _ _ h2 => wps_pure fun u hu _ => ?_)
    · intro u hIu hu
      rw [← hu.index]
      refine reindexes_bind hIu fun id' r b' hr hb' => ?_
      rw [hu.jobs, Dict.get?_set] at hr
      split at hr
      · cases hr
        rcases keys_of_bound hops hb' with hb' | ⟨-, rfl⟩
        · rw [hnone] at hb'
          cases hb'
        · rfl
      · exact hindex b' (hc id' r key b' hr hb')
    · have hfinal := h2.rely hu
      refine hQ u hfinal.up (hfinal.holds (hc.bind hrec hops hindex)) ?_
      rw [hfinal.jobs, Dict.get?_set, if_pos hid.symm]

theorem stable_answered (request : Request) (r : Job) :
    Stable τ fun s => Answered s request r where
  rely := fun h hr _ => h.advances hr.advances
  unlock := fun h => h.advances (Advances.of_jobs (h := []) rfl (by simp [unlocked]))

namespace CancelAccepted

variable (job : Job) (key : Key) (id : JobId) (now : Time)

theorem core : (Service.CancelAccepted job key id now).core = job.core := by
  unfold Service.CancelAccepted
  split <;> rfl

theorem operations : (Service.CancelAccepted job key id now).operationIdempotency =
    job.operationIdempotency.set key (.cancel id) := by
  unfold Service.CancelAccepted
  split <;> rfl

theorem grows : Grows job (Service.CancelAccepted job key id now) := by
  unfold Service.CancelAccepted
  split
  · exact ⟨rfl, rfl, rfl, fun _ => rfl, fun h => h⟩
  · exact ⟨rfl, rfl, rfl, fun h => h, fun h => h⟩

end CancelAccepted

variable {id : JobId} {key : Key}

theorem replaces_cancelAccepted (hI : Inv t) (h : Locked τ jobs index t)
    (hc : Complete jobs index) (hrec : jobs.get? id = some job)
    (hindex : ∀ b', index.operations.get? key = some b' → b' = .cancel id)
    (hswitch : job.switchStarted ≠ true) (now : Time) :
    Replaces t (Service.CancelAccepted job key id now) := by
  have hrec' : t.jobs.get? id = some job := by rw [h.jobs]; exact hrec
  have hcore := CancelAccepted.core job key id now
  have hgrows := CancelAccepted.grows job key id now
  have hid : (Service.CancelAccepted job key id now).jobId = id :=
    hgrows.jobId.trans (hI.ids id job hrec')
  have hstatus : (Service.CancelAccepted job key id now).status = job.status :=
    (congrArg Job.status hcore :)
  have hback := hI.backed id job hrec'
  refine replaces_revised (r := job) hI (by rw [hid]; exact hrec') hgrows ⟨?_, ?_⟩ ?_ ?_ ?_
  · exact Sound.of_core hcore.symm (hI.valid id job hrec').sound
  · intro _
    have hsame : (Service.CancelAccepted job key id now).switchStarted = job.switchStarted :=
      (congrArg Job.switchStarted hcore :)
    rw [hsame]
    simpa using hswitch
  · have hq : (Service.CancelAccepted job key id now).quiesced = job.quiesced :=
      (congrArg Job.quiesced hcore :)
    have hb : (Service.CancelAccepted job key id now).backup = job.backup :=
      (congrArg Job.backup hcore :)
    rw [hid]
    exact ⟨fun hs => hback.quiesced (hq ▸ hs), fun hs => hback.backup (hb ▸ hs)⟩
  · intro k v hk
    rcases keys_of_bound (CancelAccepted.operations job key id now) hk with hk | ⟨rfl, rfl⟩
    · exact .inl hk
    · exact .inr (hid.symm ▸ hc.bindable h rfl hindex)
  · intro hl ha id' r' hr' ha'
    rw [hstatus] at ha
    rw [hid]
    exact hI.single hl id' r' id job hr' hrec' ha' ha

theorem touched_cancelAccepted (hnone : job.operationIdempotency.get? key = none) (now : Time) :
    Touched job (Service.CancelAccepted job key id now) where
  switched := (congrArg Job.switchStarted (CancelAccepted.core job key id now) :)
  cancelled := (CancelAccepted.grows job key id now).cancelled
  keys := keysWithin_bound hnone (CancelAccepted.operations job key id now)
  core := fun _ => CancelAccepted.core job key id now

theorem wps_cancel (hup : s.up = true) :
    wps τ (fun r _ t => Answered t (.cancel id key) r) (fun _ _ _ => True)
      (Service.cancel id key) l s := by
  by_cases hkey : Service.validKey key = true
  swap
  · simp only [Service.cancel, hkey]
    exact wps_raise fun _ _ _ => trivial
  simp only [Service.cancel, hkey]
  refine wps_locked (P := fun r _ t => Answered t (.cancel id key) r) (R := fun _ _ _ => True) hup
    (fun r _ => stable_answered _ r) (fun _ _ => Stable.const True) (fun _ _ _ _ h => h)
    (fun _ _ _ _ _ => trivial) ?_
  intro s' hs _ _ _ hindexed
  have h0 : Locked τ s'.jobs s'.index { s' with lock := some τ } := ⟨rfl, rfl, rfl, hs.up hup⟩
  have hc : Complete s'.jobs s'.index := hindexed
  refine wps_readIndex_bind h0 fun t1 h1 _ => wps_loadJob_bind h1 fun t2 h2 _ => ?_
  cases hlookup : Service.operationLookup s'.index (s'.jobs.get? id) key (.cancel id) with
  | refused message status =>
    exact wps_raise fun t ht _ => ⟨(h2.rely ht).holds hc, trivial⟩
  | replay job repair =>
    obtain ⟨hrec, hb⟩ := operationLookup_replay hlookup
    refine wps_repairIndex h2 hc hrec hb fun t3 index' h3 hc3 => wps_pure fun t ht _ => ?_
    have h4 := h3.rely ht
    exact ⟨h4.holds hc3, job, by rw [h4.jobs]; exact hrec, fun h => h⟩
  | fresh job =>
    obtain ⟨hrec, hnone, hindex⟩ := operationLookup_fresh hlookup
    dsimp only
    by_cases hswitch : job.switchStarted = true
    · rw [if_pos hswitch]
      exact wps_raise fun t ht _ => ⟨(h2.rely ht).holds hc, trivial⟩
    · rw [if_neg hswitch]
      refine wps_now_bind fun now => wps_inv fun hI2 => ?_
      have hid : (Service.CancelAccepted job key id now).jobId = id :=
        (CancelAccepted.grows job key id now).jobId.trans (hI2.ids id job (h2.jobs ▸ hrec))
      refine wps_saveBound h2 hc hrec hnone hid (CancelAccepted.operations job key id now) hindex
        (fun t hI h => replaces_cancelAccepted hI h hc hrec hindex hswitch now)
        (touched_cancelAccepted hnone now) fun t _ hold hr => ⟨hold, _, hr, fun h => h⟩

theorem rollbackObstacle_none {list : List Job} (h : Service.rollbackObstacle id job list = none) :
    (∀ r ∈ list, r.status.active = true → r.jobId = id) ∧ job.status = .succeeded := by
  unfold Service.rollbackObstacle at h
  split at h
  · cases h
  · rename_i hothers
    split at h
    · cases h
    · rename_i hstatus
      refine ⟨?_, ?_⟩
      · intro r hr ha
        by_contra hne
        refine hothers (List.any_eq_true.mpr ⟨r, hr, ?_⟩)
        simp [hne, ha]
      · simp only [Bool.or_eq_true, not_or] at hstatus
        simpa using hstatus.1

theorem replaces_rollbackAccepted (hI : Inv t) (h : Locked τ jobs index t)
    (hc : Complete jobs index) (hrec : jobs.get? id = some job)
    (hindex : ∀ b', index.operations.get? key = some b' → b' = .rollback id)
    (hothers : ∀ id' r, jobs.get? id' = some r → r.status.active = true → r.jobId = id)
    (identity : Identity) (now : Time) :
    Replaces t (Service.RollbackAccepted job key id identity now) := by
  have hrec' : t.jobs.get? id = some job := by rw [h.jobs]; exact hrec
  have hid : job.jobId = id := hI.ids id job hrec'
  have hv := hI.valid id job hrec'
  have hback := hI.backed id job hrec'
  have hops : (Service.RollbackAccepted job key id identity now).operationIdempotency =
      job.operationIdempotency.set key (.rollback id) := rfl
  refine replaces_revised (r := job) hI (by rw [← hid] at hrec'; exact hrec')
    ⟨rfl, rfl, rfl, fun h => h, fun h => h⟩ ⟨⟨nofun, ?_, ?_, ?_, nofun⟩, ?_⟩ ?_ ?_ ?_
  · exact hv.sound.quiesced
  · exact hv.sound.backup
  · exact hv.sound.switched
  · exact hv.cancelled
  · rw [← hid] at hback
    exact ⟨hback.quiesced, hback.backup⟩
  · intro k v hk
    rcases keys_of_bound hops hk with hk | ⟨rfl, rfl⟩
    · exact .inl hk
    · exact .inr (hc.bindable h hid.symm hindex)
  · intro _ _ id' r' hr' ha'
    have hr'' : jobs.get? id' = some r' := by rw [← h.jobs]; exact hr'
    exact ((hI.ids id' r' hr').symm.trans (hothers id' r' hr'' ha')).trans hid.symm

theorem touched_rollbackAccepted (hnone : job.operationIdempotency.get? key = none)
    (hstatus : job.status = .succeeded) (identity : Identity) (now : Time) :
    Touched job (Service.RollbackAccepted job key id identity now) where
  switched := rfl
  cancelled := fun h => h
  keys := keysWithin_bound hnone (b := .rollback id) rfl
  core := fun hne => absurd hstatus hne

theorem replaces_boundRollback (hI : Inv t) (h : Locked τ jobs index t) (hc : Complete jobs index)
    (hrec : jobs.get? id = some job)
    (hindex : ∀ b', index.operations.get? key = some b' → b' = .rollback id) :
    Replaces t (Service.bound job key (.rollback id)) := by
  have hrec' : t.jobs.get? id = some job := by rw [h.jobs]; exact hrec
  have hid : job.jobId = id := hI.ids id job hrec'
  have hv := hI.valid id job hrec'
  have hback := hI.backed id job hrec'
  have hops : (Service.bound job key (.rollback id)).operationIdempotency =
      job.operationIdempotency.set key (.rollback id) := rfl
  refine replaces_revised (r := job) hI (by rw [← hid] at hrec'; exact hrec')
    ⟨rfl, rfl, rfl, fun h => h, fun h => h⟩ ⟨Sound.of_core (a := job) rfl hv.sound, hv.cancelled⟩
    ?_ ?_ ?_
  · rw [← hid] at hback
    exact ⟨hback.quiesced, hback.backup⟩
  · intro k v hk
    rcases keys_of_bound hops hk with hk | ⟨rfl, rfl⟩
    · exact .inl hk
    · exact .inr (hc.bindable h hid.symm hindex)
  · intro hl ha id' r' hr' ha'
    exact (hI.single hl id' r' id job hr' hrec' ha' ha).trans hid.symm

theorem touched_boundRollback (hnone : job.operationIdempotency.get? key = none) :
    Touched job (Service.bound job key (.rollback id)) where
  switched := rfl
  cancelled := fun h => h
  keys := keysWithin_bound hnone (b := .rollback id) rfl
  core := fun _ => rfl

theorem wps_rollbackSection {s' : World} (h0 : Locked τ jobs index s')
    (hc : Complete jobs index) :
    wps τ (fun p _ t => Holds τ t ∧ t.up = true ∧ Answered t (.rollback id key) p.1)
      (fun _ _ t => Holds τ t ∧ True) (Service.rollbackSection id key) l s' := by
  refine wps_readIndex_bind h0 fun t1 h1 _ => wps_loadJob_bind h1 fun t2 h2 _ => ?_
  have hraise : ∀ {β : Type} {Q : β → Unit → World → Prop} {e : Failure} {t : World},
      Locked τ jobs index t →
      wps τ Q (fun _ _ t => Holds τ t ∧ True) (Routine.raise e) l t :=
    fun ht => wps_raise fun u hu _ => ⟨(ht.rely hu).holds hc, trivial⟩
  cases hlookup : Service.operationLookup index (jobs.get? id) key (.rollback id) with
  | refused message status => exact hraise h2
  | replay job repair =>
    obtain ⟨hrec, hb⟩ := operationLookup_replay hlookup
    refine wps_repairIndex h2 hc hrec hb fun t3 index' h3 hc3 => ?_
    have hreplay : ∀ {t : World}, Locked τ jobs index' t →
        Holds τ t ∧ t.up = true ∧ Answered t (.rollback id key) job := fun {t} ht =>
      ⟨ht.holds hc3, ht.up, job, by rw [ht.jobs]; exact hrec⟩
    by_cases hrolling : job.status = .rollingBack
    · rw [if_pos hrolling]
      exact wps_pure fun t ht _ => hreplay (h3.rely ht)
    · rw [if_neg hrolling]
      by_cases hterminal : job.status.terminal = true
      · rw [if_pos hterminal]
        exact wps_pure fun t ht _ => hreplay (h3.rely ht)
      · rw [if_neg hterminal]
        exact wps_raise fun t ht _ => ⟨(h3.rely ht).holds hc3, trivial⟩
  | fresh job =>
    obtain ⟨hrec, hnone, hindex⟩ := operationLookup_fresh hlookup
    dsimp only
    refine wps_inv fun hI2 => ?_
    have hid : job.jobId = id := hI2.ids id job (h2.jobs ▸ hrec)
    by_cases hlegacy : ((index.operations.get? key).isSome && decide (job.status = .rollingBack) &&
        decide (job.rollbackOperatorRequested = some true)) = true
    · rw [if_pos hlegacy]
      simp only [Bool.and_eq_true, decide_eq_true_eq] at hlegacy
      obtain ⟨⟨hsome, -⟩, -⟩ := hlegacy
      have hops : (Service.bound job key (.rollback id)).operationIdempotency =
          job.operationIdempotency.set key (.rollback id) := rfl
      refine wps_bind (wps_saveJob h2 (fun t _ hI ht =>
        replaces_boundRollback hI ht hc hrec hindex) ?_ ?_)
      · intro t τ' mode r _ _ _ _ hr
        have hr' : jobs.get? job.jobId = some r := hr
        rw [hid, hrec] at hr'
        cases hr'
        exact touched_boundRollback hnone
      · intro t t3 _ _ _ _ h3
        refine wps_pure fun u hu _ => ?_
        have h4 := h3.rely hu
        have hkeep : Complete (jobs.set job.jobId
          (Service.bound job key (.rollback id))) index := by
          obtain ⟨b, hb⟩ := Option.isSome_iff_exists.mp hsome
          intro id' r key' b' hr hb'
          rw [Dict.get?_set] at hr
          split at hr
          · cases hr
            rcases keys_of_bound hops hb' with hb' | ⟨rfl, rfl⟩
            · exact hc id job key' b' hrec hb'
            · rw [hb, hindex b hb]
          · exact hc id' r key' b' hr hb'
        refine ⟨h4.holds hkeep, h4.up, Service.bound job key (.rollback id), ?_⟩
        rw [h4.jobs]
        exact (Dict.get?_set _ _ _ _).trans (if_pos hid.symm)
    · rw [if_neg hlegacy]
      refine wps_listJobs_bind h2 fun t3 list hlist h3 _ => ?_
      cases hobstacle : Service.rollbackObstacle id job list with
      | some message => exact hraise h3
      | none =>
        obtain ⟨hothers, hsucceeded⟩ := rollbackObstacle_none hobstacle
        have hothers' : ∀ id' r, jobs.get? id' = some r → r.status.active = true →
            r.jobId = id := fun id' r hr ha => hothers r ((hlist r).mpr ⟨id', hr⟩) ha
        dsimp only
        refine wps_bind (wpr_orElse (wps_host .installedIdentity (fun _ _ _ h => by cases h) ?_ ?_))
        · intro identity u v hu _ hv _
          have h4 : Locked τ jobs index (u.record (.host τ id .installedIdentity true)) :=
            ⟨(h3.rely hu).lock, (h3.rely hu).jobs, (h3.rely hu).index, (h3.rely hu).up⟩
          have h5 := h4.rely hv
          by_cases hsame : (!(job.installedTarget.any fun target =>
              Service.sameInstalledIdentity identity target)) = true
          · rw [if_pos hsame]
            exact hraise h5
          · rw [if_neg hsame]
            refine wps_now_bind fun now => ?_
            refine wps_saveBound h5 hc hrec hnone hid rfl hindex
              (fun t hI ht => replaces_rollbackAccepted hI ht hc hrec hindex hothers' identity now)
              (touched_rollbackAccepted hnone hsucceeded identity now)
              fun t hup hold hr => ⟨hold, hup, _, hr⟩
        · intro e u v hu _ hv _
          have h4 : Locked τ jobs index (u.record (.host τ id .installedIdentity false)) :=
            ⟨(h3.rely hu).lock, (h3.rely hu).jobs, (h3.rely hu).index, (h3.rely hu).up⟩
          exact hraise (h4.rely hv)

theorem wps_guardAndLaunch {Q : Unit → Unit → World → Prop} {mode : Bool} (hup : s.up = true)
    (hrecord : ∃ r, s.jobs.get? id = some r) (hfree : s.reserving ≠ some id)
    (hQ : ∀ t, Inv t → Advances s t → Q () l t) (hE : ∀ e t, E e l t) :
    wps τ Q E (do
      Service.beginLifecycle id
      Service.launch id mode) l s := by
  obtain ⟨r, hr⟩ := hrecord
  have hstay : ∀ {t : World}, Rely τ s t → t.up = true ∧ (∃ r, t.jobs.get? id = some r) ∧
      t.reserving ≠ some id := by
    intro t ht
    obtain ⟨⟨r', hr', -⟩, hres⟩ := ht.record id r hr
    exact ⟨ht.up hup, ⟨r', hr'⟩, hres hfree⟩
  refine wps_bind (wps_beginLifecycle (fun t ht _ => ⟨(hstay ht).2.1, .inl (hstay ht).2.2⟩) ?_ ?_)
  · intro t t1 t2 ht _ hg _ ht2 _
    obtain ⟨hup', ⟨r', hr'⟩, hfree'⟩ := hstay ht
    have hadv : Advances t t1 := Advances.of_jobs (h := []) hg.jobs (by simp [hg.history])
    refine wps_act (a := .launch id mode) fun t3 ht3 hI3 => ?_
    have hrely := Rely.trans _ _ _ _ ht2 ht3
    obtain ⟨⟨r'', hr'', -⟩, hres⟩ := hrely.record id r' (by rw [hg.jobs]; exact hr')
    refine owes_launch hI3 (hrely.up (hg.up.trans hup')) ⟨r'', hr''⟩
      (hres (by rw [hg.reserving]; exact hfree')) ?_
    intro u hjobs _ _ _ ⟨extra, hh⟩ v hv hIv
    exact hQ v hIv (((ht.advances.trans hadv).trans hrely.advances).trans
      ((Advances.of_jobs hjobs hh).trans hv.advances))
  · exact fun e _ t _ _ _ _ _ => hE e t

theorem wps_requestRollback (hup : s.up = true) :
    wps τ (fun r _ t => Answered t (.rollback id key) r) (fun _ _ _ => True)
      (Service.requestRollback id key) l s := by
  by_cases hkey : Service.validKey key = true
  swap
  · simp only [Service.requestRollback, hkey]
    exact wps_raise fun _ _ _ => trivial
  simp only [Service.requestRollback, hkey]
  refine wps_bind (wps_section
    (P := fun p _ t => t.up = true ∧ Answered t (.rollback id key) p.1) (R := fun _ _ _ => True)
    hup ?_ (fun _ _ _ _ _ _ _ => trivial) ?_)
  · rintro ⟨job, launches⟩ l' s1 t ⟨hup1, hP⟩ ht hI
    have hunlocked := (stable_answered (τ := τ) (.rollback id key) job).unlock hP
    have hanswered : Answered t (.rollback id key) job := hunlocked.advances ht.advances
    obtain ⟨r, hr⟩ := hunlocked
    obtain ⟨⟨r', hr', -⟩, hres⟩ := ht.record id r hr
    refine wps_bind (wpr_when (fun _ => ?_) fun _ u hu _ => wps_pure fun v hv _ => ?_)
    · refine wps_guardAndLaunch (ht.up hup1) ⟨r', hr'⟩ (hres nofun) ?_ fun _ _ => trivial
      exact fun u _ hadv => wps_pure fun v hv _ =>
        (hanswered.advances hadv).advances hv.advances
    · exact (hanswered.advances hu.advances).advances hv.advances
  · intro s' hs _ _ _ hindexed
    have hlocked : Locked τ s'.jobs s'.index { s' with lock := some τ } :=
      ⟨rfl, rfl, rfl, hs.up hup⟩
    exact wps_rollbackSection hlocked hindexed

end Sections

end AgenticKibana.Updater
