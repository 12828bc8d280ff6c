import AgenticKibana.Updater.Api

/-!
# `start`

A start answers an existing update, repairs the index entry of one, or creates a new one.
While a new update is being created nobody else can claim it (`Reserving`), so that its
clean-up may overwrite the record.
-/

namespace AgenticKibana.Updater

open AgenticKibana.Library Threads

variable {α β : Type} {τ : Nat} {jobs : Dict JobId Job} {index : Index} {id : JobId} {key : Key}

section Sections

variable {Q : α → Unit → World → Prop} {E : Failure → Unit → World → Prop} {l : Unit} {s : World}
  {job : Job}

theorem wps_relaunch {Q : Unit → Unit → World → Prop} (h : Locked τ jobs index s)
    (hres : s.reserving = none) (hrec : jobs.get? job.jobId = some job)
    (hQ : ∀ t, Locked τ jobs index t → Q () l t) (hE : ∀ e t, Locked τ jobs index t → E e l t) :
    wps τ Q E (Service.relaunch job) l s := by
  refine wpr_when (fun _ => ?_) fun _ t ht _ => hQ t (h.rely ht)
  have hstay : ∀ {t u : World}, Locked τ jobs index t → t.reserving = none → Rely τ t u →
      Locked τ jobs index u ∧ u.reserving = none := fun ht hnone hu =>
    ⟨ht.rely hu, (hu.lock ht.lock).2.2.2.1.trans hnone⟩
  refine wps_bind (wps_beginLifecycle ?_ ?_ ?_)
  · intro t ht _
    have h1 := (hstay h hres ht).1
    exact ⟨⟨job, by rw [h1.jobs]; exact hrec⟩, .inr h1.lock⟩
  · intro t t1 t2 ht _ hg _ ht2 _
    obtain ⟨h1, hnone1⟩ := hstay h hres ht
    have h2 : Locked τ jobs index t1 := ⟨hg.lock.trans h1.lock, hg.jobs.trans h1.jobs,
      hg.index.trans h1.index, hg.up.trans h1.up⟩
    obtain ⟨h3, hnone3⟩ := hstay h2 (hg.reserving.trans hnone1) ht2
    refine wps_act (a := .launch _ _) fun t3 ht3 hI3 => ?_
    obtain ⟨h4, hnone4⟩ := hstay h3 hnone3 ht3
    refine owes_launch hI3 h4.up ⟨job, by rw [h4.jobs]; exact hrec⟩ (by rw [hnone4]; nofun) ?_
    intro u hjobs hindex hlock hup _ v hv _
    have h5 : Locked τ jobs index u := ⟨hlock.trans h4.lock, hjobs.trans h4.jobs,
      hindex.trans h4.index, hup.trans h4.up⟩
    exact hQ v (h5.rely hv)
  · intro e t t1 ht _ _ ht1 _
    have h1 := (hstay h hres ht).1
    have h2 : Locked τ jobs index (t.record (.refused τ job.jobId)) :=
      ⟨h1.lock, h1.jobs, h1.index, h1.up⟩
    exact hE e t1 (h2.rely ht1)

structure Reserving (τ : Nat) (id : JobId) (jobs : Dict JobId Job) (index : Index) (s : World) :
    Prop where
  locked : Locked τ jobs index s
  reserving : s.reserving = some id
  unclaimed : Unclaimed id s

variable {t : World}

theorem Reserving.rely (h : Reserving τ id jobs index s) (hr : Rely τ s t) :
    Reserving τ id jobs index t := by
  obtain ⟨-, -, -, hres, hun⟩ := hr.lock h.locked.lock
  exact ⟨h.locked.rely hr, hres.trans h.reserving, hun id h.reserving h.unclaimed⟩

theorem wps_fallibly {P R : World → Prop} {m : Service Unit Unit} {Q : Unit → Unit → World → Prop}
    (hs : P s) (hP : ∀ {s t}, P s → Rely τ s t → P t) (hR : ∀ {s t}, R s → Rely τ s t → R t)
    (hm : ∀ t, P t → wps τ (fun _ _ u => R u) (fun _ _ _ => False) m l t)
    (hQ : ∀ t, R t → Q () l t) (hE : ∀ e t, P t ∨ R t → E e l t) :
    wps τ Q E (Service.fallibly m) l s := by
  refine wps_act_bind fun s1 h1 hI1 => owes_fault hI1 fun lost _ => ?_
  refine wps_bind (wpr_when (fun _ => wps_raise fun t ht _ => hE _ t (.inl (hP (hP hs h1) ht)))
    fun _ s2 h2 _ => ?_)
  refine wps_bind (wpr_mono (hm s2 (hP (hP hs h1) h2)) ?_ ?_)
  · intro _ l' s3 _ h3
    refine wps_act_bind fun s4 h4 hI4 => owes_fault hI4 fun unsure _ => ?_
    have hs4 := h3 s4 h4 hI4
    exact wpr_when (fun _ => wps_raise fun t ht _ => hE _ t (.inr (hR hs4 ht)))
      fun _ t ht _ => hQ t (hR hs4 ht)
  · intro e l' s3 hI3 h3
    exact (h3 s3 (Rely.refl τ s3) hI3).elim

theorem replaces_queued (h : Locked τ jobs index t) (hnew : jobs.get? id = none)
    (habsent : ∀ id' r, jobs.get? id' = some r → r.startIdempotencyKey ≠ some key)
    (hidle : ∀ id' r, jobs.get? id' = some r → r.status.active ≠ true) (release : Release)
    (plan : Option Plan) (a b : Time) : Replaces t (Job.queued id release plan key a b) where
  grows := by
    intro r hr
    have hr' : jobs.get? id = some r := by rw [← h.jobs]; exact hr
    rw [hnew] at hr'
    cases hr'
  valid := ⟨sound_queued id release plan key a b, nofun⟩
  backed := ⟨nofun, nofun⟩
  startKey := by
    intro key' hkey' id' r hr hk
    cases hkey'
    exact absurd hk (habsent id' r (by rw [← h.jobs]; exact hr))
  keys := nofun
  single := by
    intro _ _ id' r hr ha
    exact absurd ha (hidle id' r (by rw [← h.jobs]; exact hr))

theorem replaces_reservationFailed (hI : Inv t) (hrec : t.jobs.get? job.jobId = some job)
    (hstage : job.stage.afterHandoff ≠ true) (e : Failure) (now : Time) :
    Replaces t (Service.ReservationFailed job e now) := by
  have hv := hI.valid _ job hrec
  have hback := hI.backed _ job hrec
  exact replaces_revised (r := job) hI hrec ⟨rfl, rfl, rfl, fun h => h, fun h => h⟩
    ⟨⟨fun hs => absurd hs hstage, hv.sound.quiesced, hv.sound.backup, hv.sound.switched, nofun⟩,
      hv.cancelled⟩ ⟨hback.quiesced, hback.backup⟩ (fun _ _ hb => .inl hb) (fun _ => nofun)

theorem wps_reserve {Q : Unit → Unit → World → Prop} (h : Reserving τ id jobs index s)
    (hid : job.jobId = id) (hnew : jobs.get? id = none)
    (hreplaces : ∀ t, Inv t → Locked τ jobs index t → Replaces t job)
    (hkey : job.startIdempotencyKey = some key)
    (hQ : ∀ t, Locked τ (jobs.set id job) { index with jobs := index.jobs.set key id } t → Q () l t)
    (hE : ∀ e t jobs' index', Reserving τ id jobs' index' t →
      (jobs' = jobs ∨ jobs' = jobs.set id job) → index'.operations = index.operations → E e l t) :
    wps τ Q E (Service.reserve job index key) l s := by
  refine wps_bind (wps_fallibly (P := Reserving τ id jobs index)
    (R := Reserving τ id (jobs.set id job) index) h (fun h hr => h.rely hr)
    (fun h hr => h.rely hr) ?_ ?_ ?_)
  · intro t ht
    refine wps_saveJob ht.locked (fun u _ hI hu => hreplaces u hI hu) ?_ ?_
    · intro _ _ _ r _ _ _ _ hr
      rw [hid, hnew] at hr
      cases hr
    · intro u v hu _ hv _ hlocked
      have h1 := ht.rely hu
      have h2 : Reserving τ id (jobs.set id job) index (u.saveJob τ job) :=
        ⟨⟨h1.locked.lock, by rw [← hid, ← h1.locked.jobs]; rfl, h1.locked.index, h1.locked.up⟩,
          h1.reserving, h1.unclaimed.guard, h1.unclaimed.worker⟩
      exact h2.rely hv
  swap
  · intro e t ht
    rcases ht with ht | ht
    · exact hE e t jobs index ht (.inl rfl) rfl
    · exact hE e t _ index ht (.inr rfl) rfl
  intro t ht
  rw [hid]
  refine wps_bind (wps_fallibly (P := Reserving τ id (jobs.set id job) index)
    (R := Reserving τ id (jobs.set id job) { index with jobs := index.jobs.set key id }) ht
    (fun h hr => h.rely hr) (fun h hr => h.rely hr) ?_ ?_ ?_)
  · intro u hu
    refine wps_saveIndex hu.locked ?_ ?_
    · intro v hI hv
      refine ⟨?_, ?_⟩
      · intro key' id' hk
        rw [Dict.get?_set] at hk
        split at hk
        · rename_i heq
          cases hk
          subst heq
          exact ⟨job, by rw [hv.jobs, Dict.get?_set_self], hkey⟩
        · rw [← hv.index] at hk
          exact hI.indexJobs key' id' hk
      · intro id' r key' b hr hb b' hb'
        rw [← hv.index] at hb'
        exact (hI.bindings id' r key' b hr hb).2 b' hb'
    · intro v w hv hw _ _
      have h1 := hu.rely hv
      have h2 : Reserving τ id (jobs.set id job) { index with jobs := index.jobs.set key id }
          { v with index := { index with jobs := index.jobs.set key id } } :=
        ⟨⟨h1.locked.lock, h1.locked.jobs, rfl, h1.locked.up⟩, h1.reserving, h1.unclaimed.guard,
          h1.unclaimed.worker⟩
      exact h2.rely hw
  swap
  · intro e u hu
    rcases hu with hu | hu
    · exact hE e u _ index hu (.inr rfl) rfl
    · exact hE e u _ _ hu (.inr rfl) rfl
  intro u hu
  refine wps_beginLifecycle ?_ ?_ ?_
  · intro v hv _
    have h1 := hu.rely hv
    exact ⟨⟨job, by rw [h1.locked.jobs, Dict.get?_set_self]⟩, .inr h1.locked.lock⟩
  · intro v v1 v2 hv _ hg _ hv2 _
    have h1 := hu.rely hv
    have h2 : Locked τ (jobs.set id job) { index with jobs := index.jobs.set key id } v1 :=
      ⟨hg.lock.trans h1.locked.lock, hg.jobs.trans h1.locked.jobs, hg.index.trans h1.locked.index,
        hg.up.trans h1.locked.up⟩
    exact hQ v2 (h2.rely hv2)
  · intro e v v1 hv _ _ hv1 _
    have h1 := hu.rely hv
    have h2 : Reserving τ id (jobs.set id job) { index with jobs := index.jobs.set key id }
        (v.record (.refused τ id)) :=
      ⟨⟨h1.locked.lock, h1.locked.jobs, h1.locked.index, h1.locked.up⟩, h1.reserving,
        h1.unclaimed.guard, h1.unclaimed.worker⟩
    exact hE e v1 _ _ (h2.rely hv1) (.inr rfl) rfl

theorem wps_reservationFailed {jobs' : Dict JobId Job} {index' : Index} {e : Failure}
    {Q : Unit → Unit → World → Prop} (h : Reserving τ id jobs' index' s) (hid : job.jobId = id)
    (hnew : jobs.get? id = none) (hjobs : jobs' = jobs ∨ jobs' = jobs.set id job)
    (hc : Complete jobs' index')
    (hstage : job.stage.afterHandoff ≠ true) (hE : ∀ e t, Holds τ t → E e l t) :
    wps τ Q E (Service.reservationFailed id e) l s := by
  -- The guard is given back and the failure is raised.
  have hrelease : ∀ {t : World} {jobs'' : Dict JobId Job}, Reserving τ id jobs'' index' t →
      Complete jobs'' index' → wps τ Q E (do
        Service.releaseLifecycle id true
        Routine.raise e) l t := by
    intro t jobs'' ht hc''
    refine wps_bind (wps_act_bind fun u hu hI => ?_)
    have hu' := ht.rely hu
    refine owes_releaseLifecycle hI (.inr hu'.unclaimed.guard) ?_ ?_
    · intro v hjobs hindex _ hlock _ _ _
      have hold : Holds τ v := by
        refine ⟨hlock.trans hu'.locked.lock, ?_⟩
        intro id' r key b hr hb
        rw [hjobs, hu'.locked.jobs] at hr
        rw [hindex, hu'.locked.index]
        exact hc'' id' r key b hr hb
      exact wps_pure fun w hw _ => wps_raise fun x hx _ => hE _ x ((hold.rely hw).rely hx)
    · intro e' _ _
      exact wps_raise fun v hv _ => hE _ v ((hu'.rely hv).locked.holds hc'')
  refine wps_loadJob_bind h.locked fun t _ ht => ?_
  have h' := h.rely ht
  rcases hjobs with rfl | rfl
  · rw [hnew]
    exact hrelease h' hc
  · rw [Dict.get?_set_self]
    dsimp only
    refine wps_now_bind fun now => wps_bind (wps_saveJob h'.locked ?_ ?_ ?_)
    · intro u _ hI hu
      refine replaces_reservationFailed hI ?_ hstage e now
      rw [hu.jobs, hid, Dict.get?_set_self]
    · intro u τ' mode r hu _ _ hw _
      have hw' : u.workers.get? job.jobId = some ⟨τ', mode⟩ := hw
      rw [hid, (h'.rely hu).unclaimed.worker] at hw'
      cases hw'
    · intro u v hu _ hv _ hlocked
      have h1 := h'.rely hu
      have h2 : Reserving τ id ((jobs.set id job).set job.jobId
          (Service.ReservationFailed job e now)) index'
          (u.saveJob τ (Service.ReservationFailed job e now)) :=
        ⟨⟨h1.locked.lock, by rw [← h1.locked.jobs]; rfl, h1.locked.index, h1.locked.up⟩,
          h1.reserving, h1.unclaimed.guard, h1.unclaimed.worker⟩
      refine hrelease (h2.rely hv) ?_
      intro id' r key b hr hb
      rw [Dict.get?_set] at hr
      split at hr
      · cases hr
        exact hc id job key b (Dict.get?_set_self _ _ _) hb
      · exact hc id' r key b hr hb

variable {body : StartRequest} {release : Release}

/-- What the locked part of `start` leaves. -/
def Started (τ : Nat) (body : StartRequest) (job : Job) (t : World) : Prop :=
  Holds τ t ∧ t.up = true ∧ Answered t (.start body) job

theorem wps_checkPreflight {record : Option Preflight} {Q : Preflight → Unit → World → Prop}
    (h : Locked τ jobs index s) (hQ : ∀ p t, Locked τ jobs index t → Q p l t)
    (hE : ∀ e t, Locked τ jobs index t → E e l t) :
    wps τ Q E (Service.checkPreflight record release) l s := by
  have hraise : ∀ {e : Failure} {t : World}, Locked τ jobs index t →
      wps τ Q E (Routine.raise e) l t := fun ht => wps_raise fun u hu _ => hE _ u (ht.rely hu)
  unfold Service.checkPreflight
  cases record with
  | none => exact hraise h
  | some preflight =>
    dsimp only
    split
    · exact hraise h
    · split
      · exact hraise h
      · refine wps_act_bind fun t ht hI => owes_now hI fun now _ => ?_
        have h' := h.rely ht
        split
        · exact hraise h'
        · split
          · exact hraise h'
          · exact hraise h'
          · exact wps_pure fun u hu _ => hQ _ u (h'.rely hu)

theorem wps_createUpdate (h : Locked τ jobs index s) (hc : Complete jobs index)
    (hrelease : body.release = some release)
    (habsent : ∀ id r, jobs.get? id = some r → r.startIdempotencyKey ≠ some body.key) :
    wps τ (fun job _ t => Started τ body job t) (fun _ _ t => Holds τ t)
      (Service.createUpdate body release index) l s := by
  refine wps_act_bind fun t1 h1 hI1 => owes_loadPreflight hI1 fun record _ => ?_
  refine wps_bind (wps_checkPreflight (h.rely h1) (fun preflight t2 h2 => ?_)
    fun _ t ht => ht.holds hc)
  refine wps_listJobs_bind h2 fun t3 list hlist h3 _ => ?_
  by_cases hbusy : (list.any fun job => job.status.active) = true
  · rw [if_pos hbusy]
    exact wps_raise fun t ht _ => (h3.rely ht).holds hc
  · rw [if_neg hbusy]
    have hidle : ∀ id r, jobs.get? id = some r → r.status.active ≠ true := by
      intro id r hr ha
      exact hbusy (List.any_eq_true.mpr ⟨r, (hlist r).mpr ⟨id, hr⟩, ha⟩)
    refine wps_act_bind fun t4 h4 hI4 => ?_
    have hl4 := h3.rely h4
    refine owes_newId hI4 hl4.lock fun id hnew _ => ?_
    have hnew' : jobs.get? id = none := by rw [← hl4.jobs]; exact hnew
    have hreserving : Reserving τ id jobs index { t4 with reserving := some id } := by
      refine ⟨⟨hl4.lock, hl4.jobs, hl4.index, hl4.up⟩, rfl, ?_, ?_⟩
      · intro hheld
        obtain ⟨-, r, hr⟩ := hI4.guard id hheld
        rw [hnew] at hr
        cases hr
      · cases hw : t4.workers.get? id with
        | none => rfl
        | some w =>
          obtain ⟨r, hr⟩ := hI4.registered id w hw
          rw [hnew] at hr
          cases hr
    refine wps_now_bind fun startedAt => wps_now_bind fun updatedAt => ?_
    have hstage : (Job.queued id release preflight.plan body.key startedAt
        updatedAt).stage.afterHandoff ≠ true := fun h => by cases h
    have hkeep : Complete (jobs.set id
        (Job.queued id release preflight.plan body.key startedAt updatedAt)) index := by
      intro id' r key b hr hb
      rw [Dict.get?_set] at hr
      split at hr
      · cases hr
        cases hb
      · exact hc id' r key b hr hb
    refine wps_bind (wpr_orElse (wps_reserve hreserving rfl hnew' (fun t _ ht =>
      replaces_queued ht hnew' habsent hidle release preflight.plan startedAt updatedAt) rfl ?_ ?_))
    · intro t ht
      refine wps_pure fun u hu _ => ?_
      have h' := ht.rely hu
      refine ⟨h'.holds hkeep, h'.up,
        Job.queued id release preflight.plan body.key startedAt updatedAt, ?_, rfl, hrelease⟩
      rw [h'.jobs]
      exact Dict.get?_set_self _ _ _
    · intro e t jobs' index' ht hjobs hops
      have hc' : Complete jobs' index' := by
        intro id' r key b hr hb
        rw [hops]
        rcases hjobs with rfl | rfl
        · exact hc id' r key b hr hb
        · exact hkeep id' r key b hr hb
      exact wps_reservationFailed ht rfl hnew' hjobs hc' hstage fun _ _ hold => hold

theorem lookupIndexed_existing {record : Option Job}
    (h : Service.lookupIndexed record release = .existing job) :
    record = some job ∧ job.release = release := by
  unfold Service.lookupIndexed at h
  split at h
  · split at h
    · rename_i hsame
      cases h
      exact ⟨rfl, hsame⟩
    · cases h
  · cases h

variable {list : List Job}

theorem lookupRecords_repair (h : Service.lookupRecords list release key = .repair job) :
    job ∈ list ∧ job.startIdempotencyKey = some key ∧ job.release = release := by
  unfold Service.lookupRecords at h
  split at h
  · cases h
  · rename_i candidate hfilter
    split at h
    · rename_i hsame
      cases h
      have hm : job ∈ list.filter fun job => job.startIdempotencyKey = some key := by
        rw [hfilter]
        exact List.mem_singleton.mpr rfl
      rw [List.mem_filter, decide_eq_true_eq] at hm
      exact ⟨hm.1, hm.2, hsame⟩
    · cases h
  · cases h

theorem lookupRecords_absent (h : Service.lookupRecords list release key = .absent) :
    ∀ r ∈ list, r.startIdempotencyKey ≠ some key := by
  unfold Service.lookupRecords at h
  split at h
  · rename_i hfilter
    intro r hr hk
    have hm : r ∈ list.filter fun job => job.startIdempotencyKey = some key :=
      List.mem_filter.mpr ⟨hr, decide_eq_true hk⟩
    rw [hfilter] at hm
    cases hm
  · split at h
    · cases h
    · cases h
  · cases h

theorem lookupIndexed_cases (record : Option Job) (release : Release) :
    (∃ job, Service.lookupIndexed record release = .existing job) ∨
      ∃ message, Service.lookupIndexed record release = .refused message := by
  unfold Service.lookupIndexed
  split
  · split
    · exact .inl ⟨_, rfl⟩
    · exact .inr ⟨_, rfl⟩
  · exact .inr ⟨_, rfl⟩

theorem lookupRecords_cases (list : List Job) (release : Release) (key : Key) :
    Service.lookupRecords list release key = .absent ∨
      (∃ job, Service.lookupRecords list release key = .repair job) ∨
      ∃ message, Service.lookupRecords list release key = .refused message := by
  unfold Service.lookupRecords
  split
  · exact .inl rfl
  · split
    · exact .inr (.inl ⟨_, rfl⟩)
    · exact .inr (.inr ⟨_, rfl⟩)
  · exact .inr (.inr ⟨_, rfl⟩)

theorem wps_startSection (h : Locked τ jobs index s) (hc : Complete jobs index)
    (hres : s.reserving = none) (hrelease : body.release = some release) :
    wps τ (fun p _ t => Started τ body p.1 t) (fun _ _ t => Holds τ t)
      (Service.startSection body release) l s := by
  refine wps_inv fun hI => ?_
  have hnone : ∀ {t : World}, Rely τ s t → t.reserving = none :=
    fun ht => (ht.lock h.lock).2.2.2.1.trans hres
  have hrefuse : ∀ {β : Type} {Q : β → Unit → World → Prop} {e : Failure} {t : World},
      Locked τ jobs index t → wps τ Q (fun _ _ t => Holds τ t) (Routine.raise e) l t :=
    fun ht => wps_raise fun u hu _ => (ht.rely hu).holds hc
  -- An existing update is answered, and taken up again if it is active.
  have hanswer : ∀ {job : Job} {t : World} {index' : Index}, Locked τ jobs index' t →
      Complete jobs index' → t.reserving = none → jobs.get? job.jobId = some job →
      job.startIdempotencyKey = some body.key → job.release = release →
      wps τ (fun p _ t => Started τ body p.1 t) (fun _ _ t => Holds τ t) (do
        Service.relaunch job
        pure (job, false)) l t := by
    intro job t index' ht hc' hnone' hrec hkey hsame
    refine wps_bind (wps_relaunch ht hnone' hrec ?_ fun _ u hu => hu.holds hc')
    intro u hu
    refine wps_pure fun v hv _ => ?_
    have h' := hu.rely hv
    exact ⟨h'.holds hc', h'.up, job, by rw [h'.jobs]; exact hrec, hkey, hsame ▸ hrelease⟩
  refine wps_readIndex_bind h fun t1 h1 hr1 => ?_
  cases hindexed : index.jobs.get? body.key with
  | some id =>
    refine wps_loadJob_bind h1 fun t2 h2 hr2 => ?_
    rcases lookupIndexed_cases (jobs.get? id) release with ⟨job, hlookup⟩ | ⟨message, hlookup⟩
    · rw [hlookup]
      obtain ⟨hrec, hsame⟩ := lookupIndexed_existing hlookup
      rw [← h.index] at hindexed
      obtain ⟨r, hr, hkey⟩ := hI.indexJobs body.key id hindexed
      rw [h.jobs, hrec] at hr
      cases hr
      have hid : job.jobId = id := hI.ids id job (by rw [h.jobs]; exact hrec)
      exact hanswer h2 hc (hnone (Rely.trans _ _ _ _ hr1 hr2)) (by rw [hid]; exact hrec) hkey hsame
    · rw [hlookup]
      exact hrefuse h2
  | none =>
    refine wps_listJobs_bind h1 fun t2 list hlist h2 hr2 => ?_
    rcases lookupRecords_cases list release
      body.key with hlookup | ⟨job, hlookup⟩ | ⟨message, hlookup⟩
    · rw [hlookup]
      have habsent := lookupRecords_absent hlookup
      refine wps_bind (wpr_mono (wps_createUpdate h2 hc hrelease fun id r hr =>
        habsent r ((hlist r).mpr ⟨id, hr⟩)) ?_ ?_)
      · intro job _ t _ ht
        exact wps_pure fun u hu hIu => ht u hu hIu
      · intro e _ t hIt ht
        exact ht t (Rely.refl τ t) hIt
    · rw [hlookup]
      obtain ⟨hm, hkey, hsame⟩ := lookupRecords_repair hlookup
      obtain ⟨id, hrec⟩ := (hlist job).mp hm
      have hid : job.jobId = id := hI.ids id job (by rw [h.jobs]; exact hrec)
      have hrec' : jobs.get? job.jobId = some job := by rw [hid]; exact hrec
      refine wps_bind (wps_saveIndex h2 ?_ ?_)
      · intro t hIt ht
        refine ⟨?_, ?_⟩
        · intro key' id' hk
          rw [Dict.get?_set] at hk
          split at hk
          · rename_i heq
            cases hk
            subst heq
            exact ⟨job, by rw [ht.jobs]; exact hrec', hkey⟩
          · rw [← ht.index] at hk
            exact hIt.indexJobs key' id' hk
        · intro id' r key' b hr hb b' hb'
          rw [← ht.index] at hb'
          exact (hIt.bindings id' r key' b hr hb).2 b' hb'
      · intro t t' ht ht' _ hlocked
        have hlock1 : t.reserving = none :=
          hnone (Rely.trans _ _ _ _ hr1 (Rely.trans _ _ _ _ hr2 ht))
        have hheld := (h2.rely ht).lock
        exact hanswer hlocked hc ((ht'.lock hheld).2.2.2.1.trans hlock1) hrec' hkey hsame
    · rw [hlookup]
      exact hrefuse h2

theorem wps_start (hup : s.up = true) :
    wps τ (fun r _ t => Answered t (.start body) r) (fun _ _ _ => True)
      (Service.start body) l s := by
  unfold Service.start
  cases hrelease : body.release with
  | none => exact wps_raise fun _ _ _ => trivial
  | some release =>
    dsimp only
    split
    · exact wps_raise fun _ _ _ => trivial
    refine wps_bind (wps_section (P := fun p _ t => t.up = true ∧ Answered t (.start body) p.1)
      (R := fun _ _ _ => True) hup ?_ (fun _ _ _ _ _ _ _ => trivial) ?_)
    · rintro ⟨job, created⟩ l' s1 t ⟨hup1, hP⟩ ht hI
      have hunlocked := (stable_answered (τ := τ) (.start body) job).unlock hP
      have hanswered : Answered t (.start body) job := hunlocked.advances ht.advances
      obtain ⟨r, hr, -⟩ := hunlocked
      obtain ⟨⟨r', hr', -, -⟩, hres⟩ := ht.record job.jobId r hr
      refine wps_bind (wpr_when (fun _ => ?_) fun _ u hu _ => wps_pure fun v hv _ => ?_)
      · refine wps_act (a := .launch job.jobId false) fun u hu hIu => ?_
        obtain ⟨⟨r'', hr'', -, -⟩, hres'⟩ := hu.record job.jobId r' hr'
        refine owes_launch hIu (hu.up (ht.up hup1)) ⟨r'', hr''⟩ (hres' (hres nofun)) ?_
        intro v hjobs _ _ _ ⟨extra, hh⟩ w hw _
        refine wps_pure fun x hx _ => ?_
        exact (((hanswered.advances hu.advances).advances
          (Advances.of_jobs hjobs hh)).advances hw.advances).advances hx.advances
      · exact (hanswered.advances hu.advances).advances hv.advances
    · intro s' hs _ _ hnone hindexed
      have hlocked : Locked τ s'.jobs s'.index { s' with lock := some τ } :=
        ⟨rfl, rfl, rfl, hs.up hup⟩
      refine wpr_mono (wps_startSection hlocked hindexed hnone hrelease) ?_ ?_
      · intro p _ t hIt ht
        obtain ⟨hold, hP⟩ := ht t (Rely.refl τ t) hIt
        exact ⟨hold, hP⟩
      · intro e _ t hIt ht
        exact ⟨ht t (Rely.refl τ t) hIt, trivial⟩

end Sections

end AgenticKibana.Updater
