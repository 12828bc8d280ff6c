import AgenticKibana.Updater.Rollback

/-!
# The update worker

`_worker` is verified phase by phase.  Between two phases its copy of the record is
`Running`: in sync with the record, well formed, and the lifecycle guard is held.  What a
phase adds to that (the prior images are captured, the writer is stopped, a backup is
taken, the switch has begun) is read off the copy.
-/

namespace AgenticKibana.Updater

open AgenticKibana.Library Threads List

variable {α : Type} {τ : Nat} {id : JobId}

/-! ### Between two phases -/

structure Working (τ : Nat) (id : JobId) (job : Job) (s : World) : Prop where
  at_ : At τ id false job s
  guarded : s.lifecycle = some id
  unfailing : Unfailing τ s.history
  captured : ∀ a ∈ savesOf τ s.history, Captured a → Captured job

/-- The copy is the record, but for what the API wrote. -/
structure Running (τ : Nat) (id : JobId) (job : Job) (s : World) : Prop where
  working : Working τ id job s
  sync : InSync id job s
  sound : Sound job
  running : job.status = .running

structure Broken (τ : Nat) (id : JobId) (s : World) : Prop where
  base : Base τ id false s
  rollbacks : rollbacksOf τ s.history = []
  captured : ∀ a ∈ savesOf τ s.history, Captured a →
    ∃ r, s.jobs.get? id = some r ∧ Captured r ∧ r.status ≠ .succeeded

def Stopped (job : Job) : Prop := Captured job ∧ job.quiesced = true

def Saved (job : Job) : Prop := Captured job ∧ job.backup.isSome = true

def Switching (job : Job) : Prop := Saved job ∧ job.switchStarted = true

structure Kept (a b : Job) : Prop where
  snapshot : b.snapshot = a.snapshot
  overrideStarted : b.overrideStarted = a.overrideStarted
  quiesced : b.quiesced = a.quiesced
  quiescedAt : b.quiescedAt = a.quiescedAt
  backup : b.backup = a.backup
  switchStarted : b.switchStarted = a.switchStarted

variable {a b : Job} {s t : World}

theorem Kept.of_core (h : b.core = a.core) : Kept a b :=
  ⟨(congrArg Job.snapshot h :), (congrArg Job.overrideStarted h :), (congrArg Job.quiesced h :),
    (congrArg Job.quiescedAt h :), (congrArg Job.backup h :), (congrArg Job.switchStarted h :)⟩

theorem Captured.kept (h : Captured a) (hk : Kept a b) : Captured b :=
  ⟨hk.snapshot ▸ h.1, hk.overrideStarted ▸ h.2⟩

theorem Stopped.kept (h : Stopped a) (hk : Kept a b) : Stopped b :=
  ⟨h.1.kept hk, hk.quiesced ▸ h.2⟩

theorem Saved.kept (h : Saved a) (hk : Kept a b) : Saved b :=
  ⟨h.1.kept hk, hk.backup ▸ h.2⟩

theorem Switching.kept (h : Switching a) (hk : Kept a b) : Switching b :=
  ⟨h.1.kept hk, hk.switchStarted ▸ h.2⟩

variable {job : Job}

theorem Working.rely (h : Working τ id job s) (hr : Rely τ s t) : Working τ id job t where
  at_ := h.at_.rely hr
  guarded := (hr.worker id false h.at_.base.registered).2.2 h.guarded
  unfailing := h.unfailing.did (Did.of_rely hr)
  captured := by
    rw [(Did.of_rely hr).saves, append_nil]
    exact h.captured

theorem Running.rely (h : Running τ id job s) (hr : Rely τ s t) : Running τ id job t where
  working := h.working.rely hr
  sync := h.sync.rely h.working.at_.base.registered hr
  sound := h.sound
  running := h.running

theorem Running.broken (h : Running τ id job s) : Broken τ id s := by
  refine ⟨h.working.at_.base, h.working.unfailing.1, ?_⟩
  intro a ha hcaptured
  obtain ⟨r, hrec, hcore, hne⟩ := h.sync
  exact ⟨r, hrec, (h.working.captured a ha hcaptured).kept (Kept.of_core hcore), hne⟩

theorem Broken.rely (h : Broken τ id s) (hr : Rely τ s t) : Broken τ id t := by
  refine ⟨h.base.rely hr, by simp [(Did.of_rely hr).rollbacks, h.rollbacks], ?_⟩
  rw [(Did.of_rely hr).saves, append_nil]
  intro a ha hcaptured
  obtain ⟨r, hrec, hr', hne⟩ := h.captured a ha hcaptured
  obtain ⟨r', hrec', ht⟩ := (hr.worker id false h.base.registered).2.1 r hrec
  exact ⟨r', hrec', hr'.kept (Kept.of_core (ht.core hne)), by rw [ht.status hne]; exact hne⟩

theorem Working.handedOver (h : Working τ id job s)
    (hm : Entry.host τ id .handoffUpdater true ∈ s.history) : Done τ id false s := by
  refine ⟨h.at_.base.registered, by simp [h.unfailing.1], by simp [h.unfailing.1], ?_⟩
  rintro ⟨a, ha, -⟩
  refine ⟨(savesOf τ s.history).getLast (ne_nil_of_mem ha),
    getLast?_eq_some_getLast _, .inr (.inl ⟨h.unfailing, id, hm⟩)⟩

theorem Working.calm (h : Working τ id job s) (hno : ¬ Captured job) : Calm τ s.history :=
  ⟨h.unfailing.1, fun a ha hcaptured => hno (h.captured a ha hcaptured)⟩

theorem Working.host (h : Working τ id job s) (call : HostCall)
    (hcall : ∀ snapshot backup restore, call ≠ .rollback snapshot backup restore) :
    Working τ id job (s.record (.host τ id call true)) where
  at_ := h.at_.frame rfl rfl rfl (fun h => h) rfl
  guarded := h.guarded
  unfailing := h.unfailing.did (Did.host s id true hcall)
  captured := by
    rw [(Did.host s id true hcall).saves, append_nil]
    exact h.captured

theorem Running.host (h : Running τ id job s) (call : HostCall)
    (hcall : ∀ snapshot backup restore, call ≠ .rollback snapshot backup restore) :
    Running τ id job (s.record (.host τ id call true)) where
  working := h.working.host call hcall
  sync := h.sync
  sound := h.sound
  running := h.running

theorem Running.hostFailed (h : Running τ id job s) (call : HostCall)
    (hcall : ∀ snapshot backup restore, call ≠ .rollback snapshot backup restore) :
    Broken τ id (s.record (.host τ id call false)) := by
  have hd := Did.host (τ := τ) s id false hcall
  have hbroken := h.broken
  refine ⟨hbroken.base.frame rfl rfl rfl
    (fun h => h) rfl, by simp [hd.rollbacks, hbroken.rollbacks], ?_⟩
  rw [hd.saves, append_nil]
  exact hbroken.captured

theorem Working.modify {job' : Job} (h : Working τ id job s) (hid : job'.jobId = job.jobId)
    (hrelease : job'.release = job.release)
    (hkey : job'.startIdempotencyKey = job.startIdempotencyKey)
    (hswitch : job'.switchStarted = job.switchStarted)
    (hcancel : job'.cancelRequested = job.cancelRequested)
    (hkeys : job'.operationIdempotency = job.operationIdempotency)
    (hcaptured : Captured job → Captured job')
    (hbacked : Backed s.history id job') : Working τ id job' s where
  at_ := h.at_.modify hid hrelease hkey hswitch hcancel hkeys hbacked
  guarded := h.guarded
  unfailing := h.unfailing
  captured := fun a ha hc => hcaptured (h.captured a ha hc)

theorem Working.wrote {job' : Job} (h : Working τ id job s) (hw : Wrote τ id false job' s t)
    (hsound : Sound job') (hrunning : job'.status = .running)
    (hcaptured : Captured job → Captured job') : Running τ id job' t where
  working :=
    { at_ := hw.at_
      guarded := hw.guarded h.guarded
      unfailing := h.unfailing.did hw.did
      captured := by
        rw [hw.did.saves]
        intro a ha hc
        rcases mem_append.mp ha with ha | ha
        · exact hcaptured (h.captured a ha hc)
        · cases mem_singleton.mp ha
          exact hc }
  sync := hw.sync
  sound := hsound
  running := hrunning

theorem Running.switchReady (h : Running τ id job s) (hs : Switching job) : SwitchReady s id := by
  obtain ⟨r, hrec, hcore, -⟩ := h.sync
  obtain ⟨⟨⟨hsnapshot, -⟩, hbackup⟩, hswitch⟩ := hs
  have hb : r.backup = job.backup := (congrArg Job.backup hcore :)
  have hsn : r.snapshot = job.snapshot := (congrArg Job.snapshot hcore :)
  have hsw : r.switchStarted = job.switchStarted := (congrArg Job.switchStarted hcore :)
  obtain ⟨b, hsome⟩ := Option.isSome_iff_exists.mp hbackup
  refine ⟨⟨r, b, hrec, hsn ▸ hsnapshot, hb.trans hsome, (h.sound.backup b hsome).1,
    hsw.trans hswitch⟩, h.working.at_.backed.backup hbackup⟩

/-- The weakest precondition of a phase of the worker: an exception leaves it `Broken`. -/
abbrev wpw (τ : Nat) (id : JobId) (Q : α → Local → World → Prop) (m : Service Local α) (l : Local)
    (s : World) : Prop :=
  wps τ Q (fun _ _ t => Broken τ id t) m l s

section Phases

variable {Q : Unit → Local → World → Prop} {l : Local} {s : World} {e : Failure}
  {E : Failure → Local → World → Prop} {plan : Plan} {job : Job}

theorem wpw_raise {Q : α → Local → World → Prop} (h : Running τ id job s) :
    wpw τ id Q (Routine.raise e) l s :=
  wps_raise fun _ ht _ => (h.rely ht).broken

theorem wpw_host (call : HostCall) {Q : call.Value → Local → World → Prop}
    (h : Running τ id job s)
    (hcall : ∀ snapshot backup restore, call ≠ .rollback snapshot backup restore)
    (hswitch : call.switches = true → Switching job)
    (hQ : ∀ v t, Inv t → Running τ id job t → Entry.host τ id call true ∈ t.history → Q v l t) :
    wpw τ id Q (Service.host id call) l s := by
  refine wps_host call (fun s' hs _ hc => (h.rely hs).switchReady (hswitch hc)) ?_ ?_
  · intro v s' t hs _ ht hI
    refine hQ v t hI (((h.rely hs).host call hcall).rely ht) ?_
    obtain ⟨extra, hh, -⟩ := ht.history
    rw [hh]
    exact mem_append_left _ (by simp [World.record])
  · intro e s' t hs _ ht _
    exact ((h.rely hs).hostFailed call hcall).rely ht

theorem wpw_check {p : Bool} (h : Running τ id job s)
    (hQ : ∀ t, Inv t → Running τ id job t → Q () l t) :
    wpw τ id Q (Routine.when p (Routine.raise e)) l s :=
  wpr_when (fun _ => wpw_raise h) fun _ t ht hI => hQ t hI (h.rely ht)

theorem wpw_save (h : Working τ id l.job s) (hsound : Sound l.job)
    (hrunning : l.job.status = .running)
    (hQ : ∀ l' t, Inv t → Running τ id l'.job t → Kept l.job l'.job → Q () l' t) :
    wpw τ id Q Service.saveWorkerJob l s := by
  refine wps_saveWorkerJob h.at_ (by rw [hrunning]; rfl) hsound ?_
  intro c t hI hw
  exact hQ _ t hI (h.wrote hw (hsound.written c) hrunning fun hc => hc)
    ⟨rfl, rfl, rfl, rfl, rfl, rfl⟩

variable {stage : Stage} {message : String}

theorem wpw_stage (h : Working τ id l.job s) (hsound : Sound l.job)
    (hstage : stage.afterHandoff = true → Captured l.job)
    (hQ : ∀ l' t, Inv t → Running τ id l'.job t → Kept l.job l'.job → Q () l' t) :
    wpw τ id Q (Service.saveStage stage message .running) l s := by
  have hstaged : ∀ now, Sound (Service.Staged l.job stage message .running now) :=
    fun now => hsound.staged (fun hs => ⟨rfl, hstage hs⟩) (by simp) message now
  refine wps_saveStage h.at_ rfl hstaged ?_
  intro now c t hI hw
  exact hQ _ t hI (h.wrote hw ((hstaged now).written c) rfl fun hc => hc)
    ⟨rfl, rfl, rfl, rfl, rfl, rfl⟩

/-! ### Cancellation and failure -/

theorem stage_of_not_captured (h : Sound job)
    (hno : (job.snapshot.isSome && job.overrideStarted) = false) :
    job.stage.afterHandoff ≠ true := by
  intro hs
  obtain ⟨-, hsnapshot, hoverride⟩ := h.handoff hs
  rw [hsnapshot, hoverride] at hno
  cases hno

structure Doomed (τ : Nat) (id : JobId) (s0 s : World) : Prop where
  base : Base τ id false s
  rollbacks : rollbacksOf τ s.history = []
  record : ∃ r, s.jobs.get? id = some r ∧ r.snapshot.isSome = true ∧ r.status ≠ .succeeded
  guarded : s0.lifecycle = some id → s.lifecycle = some id

theorem wps_saveRolling (hA : At τ id false l.job s) (hsound : Sound l.job)
    (hnone : rollbacksOf τ s.history = []) (hsnapshot : l.job.snapshot.isSome = true)
    (hQ : ∀ l' t, Inv t → Doomed τ id s t → Q () l' t) :
    wps τ Q E (Service.saveStage .rollingBack message .rollingBack) l s := by
  refine wps_saveStage hA rfl
    (fun now => hsound.staged (by simp [Stage.afterHandoff]) (by simp) message now) ?_
  intro now c t hI hw
  obtain ⟨r, hrec, hcore, hne⟩ := hw.sync
  have hsame : r.snapshot = l.job.snapshot := (congrArg Job.snapshot hcore :)
  exact hQ _ t hI ⟨hw.at_.base, by simp [hw.did.rollbacks, hnone],
    ⟨r, hrec, hsame ▸ hsnapshot, hne⟩, hw.guarded⟩

theorem Doomed.rollbackWorker {s0 : World}
    (h : Doomed τ id s0 s) (hQ : ∀ l' t, Inv t → Done τ id false t → Q () l' t)
    (hE : ∀ e l' t, Inv t → s0.lifecycle ≠ some id → Done τ id false t → E e l' t) :
    wps τ Q E (Service.rollbackWorker id) l s :=
  wps_rollbackWorker h.base h.rollbacks (.inr h.record) hQ
    fun e l' t hI hne hD => hE e l' t hI (fun hl => hne (h.guarded hl)) hD

theorem wps_publishEarly {status : Status} (hA : At τ id false l.job s) (hsound : Sound l.job)
    (hcalm : Calm τ s.history) (hno : ¬ Captured l.job) (hterminal : status.terminal = true)
    (hstage : stage.afterHandoff ≠ true) (hstatus : status ≠ .succeeded)
    (hQ : ∀ l' t, Inv t → Done τ id false t → Q () l' t)
    (hE : ∀ e l' t, Inv t → s.lifecycle ≠ some id → Done τ id false t → E e l' t) :
    wps τ Q E (Service.saveStage stage message status) l s := by
  have hdone : ∀ {now c t}, Published τ id false
      ((Service.Staged l.job stage message status now).written c) s t → Done τ id false t := by
    intro now c t hp
    refine ⟨hp.registered, (hcalm.did hp.did ?_).ended⟩
    intro a ha
    cases mem_singleton.mp ha
    exact hno
  refine wps_publish hA hterminal (fun now => hsound.staged (fun hs => absurd hs hstage)
    (fun hs => absurd hs hstatus) message now) ?_ ?_
  · intro now c t hI hp
    exact hQ _ t hI (hdone hp)
  · intro now c e t hI hp hne
    exact hE e _ t hI hne (hdone hp)

variable {r : Job}

theorem Running.update (h : Running τ id job s) (hI : Inv s) (hrec : s.jobs.get? id = some r) :
    Running τ id (job.update r) s ∧ (job.update r).core = job.core := by
  obtain ⟨r', hrec', hcore, hne⟩ := h.sync
  rw [hrec] at hrec'
  cases hrec'
  obtain ⟨r', hrec', hagree⟩ := h.working.at_.agrees
  rw [hrec] at hrec'
  cases hrec'
  have hupdated : (job.update r).core = r.core := core_update hcore.symm
  have hkeys : KeysWithin (job.update r) r := by
    intro k v hk
    simp only [Job.update] at hk
    split at hk
    · exact hagree.keys k v hk
    · exact hk
  have hbacked : Backed s.history id (job.update r) := by
    have hq : (job.update r).quiesced = r.quiesced := (congrArg Job.quiesced hupdated :)
    have hb : (job.update r).backup = r.backup := (congrArg Job.backup hupdated :)
    exact ⟨fun hs => (hI.backed id r hrec).quiesced (hq ▸ hs),
      fun hs => (hI.backed id r hrec).backup (hb ▸ hs)⟩
  have hkey : (job.update r).startIdempotencyKey = r.startIdempotencyKey :=
    (congrArg Job.startIdempotencyKey hupdated :)
  have hkept : Kept job (job.update r) := Kept.of_core (hupdated.trans hcore)
  refine ⟨⟨⟨⟨h.working.at_.base, hI.ids id r hrec, ⟨r, hrec, ?_⟩, hbacked⟩,
    h.working.guarded, h.working.unfailing,
    fun a ha hc => (h.working.captured a ha hc).kept hkept⟩, ⟨r, hrec, hupdated.symm, hne⟩,
    Sound.of_core hupdated.symm (hI.valid id r hrec).sound, ?_⟩, hupdated.trans hcore⟩
  · exact ⟨rfl, rfl, hkey.symm, rfl, fun hc => hc, hkeys⟩
  · have hstatus : (job.update r).status = job.status :=
      (congrArg Job.status (hupdated.trans hcore) :)
    exact hstatus.trans h.running

theorem wpw_cancelIfRequested {Q : Bool → Local → World → Prop} (h : Running τ id l.job s)
    (hgo : ∀ t, Inv t → Running τ id l.job t → (∃ s' r, Rely τ s s' ∧ Inv s' ∧
      s'.jobs.get? id = some r ∧ (r.cancelRequested && !r.switchStarted) ≠ true) → Q false l t)
    (hend : ∀ l' t, Inv t → Done τ id false t → Q true l' t) :
    wpw τ id Q (Service.cancelIfRequested id) l s := by
  refine wps_act_bind fun s' hs hI => owes_loadJob hI fun _ => wps_getJob_bind ?_
  have h' := h.rely hs
  obtain ⟨r, hrec⟩ := h'.working.at_.base.record
  rw [hrec]
  simp only [Option.getD_some]
  by_cases hc : (r.cancelRequested && !r.switchStarted) = true
  · rw [if_pos hc]
    refine wps_modifyJob_bind (wps_getJob_bind ?_)
    obtain ⟨hu, -⟩ := h'.update hI hrec
    generalize l.job.update r = job at hu
    by_cases hcaptured : (job.snapshot.isSome && job.overrideStarted) = true
    · rw [if_pos hcaptured]
      rw [Bool.and_eq_true] at hcaptured
      have hW : Working τ id (Service.CancelRollback job) s' :=
        hu.working.modify rfl rfl rfl rfl rfl rfl (fun h => h)
          ⟨hu.working.at_.backed.quiesced, hu.working.at_.backed.backup⟩
      have hsound : Sound (Service.CancelRollback job) :=
        ⟨hu.sound.handoff, hu.sound.quiesced, hu.sound.backup, hu.sound.switched,
          hu.sound.succeeded⟩
      refine wps_modifyJob_bind (wps_bind
        (wps_saveRolling hW.at_ hsound hW.unfailing.1 hcaptured.1 ?_))
      intro l1 t _ hdoomed
      refine wps_bind (hdoomed.rollbackWorker ?_ fun _ _ _ _ hne _ => absurd hW.guarded hne)
      exact fun l' u _ hD => wps_pure fun v hv hIv => hend l' v hIv (hD.rely hv)
    · rw [if_neg hcaptured]
      have hno : ¬ Captured job := by
        rintro ⟨hsnapshot, hoverride⟩
        simp [hsnapshot, hoverride] at hcaptured
      refine wps_bind (wps_publishEarly hu.working.at_ hu.sound (hu.working.calm hno) hno rfl
        (stage_of_not_captured hu.sound (by simpa using hcaptured)) (by simp) ?_ ?_)
      · exact fun l' u _ hD => wps_pure fun v hv hIv => hend l' v hIv (hD.rely hv)
      · exact fun _ _ _ _ hne _ => absurd hu.working.guarded hne
  · rw [if_neg hc]
    exact wps_pure fun t ht hIt => hgo t hIt (h'.rely ht) ⟨s', r, hs, hI, hrec, hc⟩

theorem stable_running (job : Job) : Stable τ (Running τ id job) where
  rely := fun h hr _ => h.rely hr
  unlock := fun h =>
    ⟨⟨h.working.at_.frame (h := []) rfl rfl rfl (fun _ => by simp [unlocked]) (by simp [unlocked]),
      h.working.guarded, h.working.unfailing, h.working.captured⟩, h.sync, h.sound, h.running⟩

def CancelRequested (id : JobId) (s : World) : Prop :=
  ∃ r, s.jobs.get? id = some r ∧ r.cancelRequested = true

theorem stable_cancelRequested (id : JobId) : Stable τ (CancelRequested id) where
  rely := by
    rintro s t ⟨r, hrec, hc⟩ hr -
    obtain ⟨⟨r', hrec', hg⟩, -⟩ := hr.record id r hrec
    exact ⟨r', hrec', hg.cancelled hc⟩
  unlock := fun h => h

theorem Running.begin (h : Running τ id job s) (hI : Inv s) (hrec : s.jobs.get? id = some r)
    (hsaved : Saved job) (hcancel : r.cancelRequested ≠ true) (now : Time) :
    Replaces s { r with switchStarted := true, updatedAt := now } := by
  obtain ⟨r', hrec', hcore, -⟩ := h.sync
  rw [hrec] at hrec'
  cases hrec'
  have hv := hI.valid id r hrec
  have hsnapshot : r.snapshot = job.snapshot := (congrArg Job.snapshot hcore :)
  have hoverride : r.overrideStarted = job.overrideStarted :=
    (congrArg Job.overrideStarted hcore :)
  have hbackup : r.backup = job.backup := (congrArg Job.backup hcore :)
  obtain ⟨⟨hsn, hov⟩, hb⟩ := hsaved
  have hid : id = r.jobId := (hI.ids id r hrec).symm
  refine replaces_revised (r := r) hI (hid ▸ hrec) ⟨rfl, rfl, rfl, fun hc => hc, fun _ => rfl⟩
    ⟨⟨?_, ?_, ?_, ?_, ?_⟩, ?_⟩ ?_ (fun _ _ hb => .inl hb) ?_
  · exact hv.sound.handoff
  · exact hv.sound.quiesced
  · exact hv.sound.backup
  · intro _
    exact ⟨hsnapshot ▸ hsn, hoverride ▸ hov, hbackup ▸ hb⟩
  · intro _
    rfl
  · intro hc
    exact absurd hc hcancel
  · have hback := hI.backed id r hrec
    rw [hid] at hback
    exact ⟨hback.quiesced, hback.backup⟩
  · intro hl _ id' r' hr' ha'
    exact (hI.single hl id' r' id r hr' hrec ha' (h.working.at_.base.live hl r hrec)).trans hid

theorem Running.begun {r : Job} (h : Running τ id job s) (hrec : s.jobs.get? id = some r)
    (hsaved : Saved job) (now : Time) : Running τ id { job with switchStarted := true }
      (s.saveJob τ { r with switchStarted := true, updatedAt := now }) := by
  obtain ⟨r', hrec', hcore, hne⟩ := h.sync
  rw [hrec] at hrec'
  cases hrec'
  obtain ⟨r', hrec', hagree⟩ := h.working.at_.agrees
  rw [hrec] at hrec'
  cases hrec'
  have hB := h.working.at_.base
  have hid : id = r.jobId := h.working.at_.jobId.symm.trans hagree.jobId.symm
  have hnow : (s.saveJob τ { r with switchStarted := true, updatedAt := now }).jobs.get? id =
      some { r with switchStarted := true, updatedAt := now } := by
    rw [get?_saveJob, if_pos hid]
  refine ⟨⟨⟨⟨hB.up, hB.registered, hB.free, ⟨_, hnow⟩, ?_⟩, h.working.at_.jobId,
    ⟨_, hnow, hagree.jobId, hagree.release, hagree.startKey, rfl, hagree.cancelled, hagree.keys⟩,
    ?_⟩, h.working.guarded,
    h.working.unfailing.did (Did.saveJob s _), ?_⟩,
    ⟨_, hnow, ?_, hne⟩, ?_, h.running⟩
  · intro hl r' hr'
    rw [hnow] at hr'
    cases hr'
    exact hB.live hl.of_append r hrec
  · have hback := h.working.at_.backed.append
      [.saved τ (s.jobs.get? r.jobId) { r with switchStarted := true, updatedAt := now }]
    exact ⟨hback.quiesced, hback.backup⟩
  · intro a _ _
    exact hsaved.1
  · have hcore' := congrArg (fun job : Job => { job with switchStarted := true }) hcore
    exact hcore'
  · exact ⟨h.sound.handoff, h.sound.quiesced, h.sound.backup,
      fun _ => ⟨hsaved.1.1, hsaved.1.2, hsaved.2⟩, fun _ => rfl⟩

section

variable (h : Running τ id l.job s)

include h

theorem wpw_beginSwitch {Q : Bool → Local → World → Prop} (hsaved : Saved l.job)
    (hQ : ∀ b l' t, Inv t → Running τ id l'.job t → (b = true → Switching l'.job) →
      (b = false → CancelRequested id t) → Q b l' t) :
    wpw τ id Q (Service.beginSwitch id) l s := by
  refine wps_locked (P := fun b l' t => Running τ id l'.job t ∧
      ((b = true → Switching l'.job) ∧ (b = false → CancelRequested id t)))
    (R := fun _ _ _ => False) h.working.at_.base.up
    (fun _ _ => (stable_running _).and ((Stable.const _).and (stable_cancelRequested id).imp))
    (fun _ _ => Stable.const False)
    (fun b l' t hI hP => hQ b l' t hI hP.1 hP.2.1 hP.2.2) (fun _ _ _ _ hf => hf.elim) ?_
  intro s' hs hI hnone hres hindexed
  have h' : Running τ id l.job { s' with lock := some τ } :=
    ⟨⟨(h.rely hs).working.at_.frame (h := []) rfl rfl rfl (fun h => h) (by simp),
      (h.rely hs).working.guarded, (h.rely hs).working.unfailing, (h.rely hs).working.captured⟩,
      (h.rely hs).sync, h.sound, h.running⟩
  have hold : Holds τ { s' with lock := some τ } := ⟨rfl, hindexed⟩
  refine wps_act_bind fun u hu hIu => owes_loadJob hIu fun _ => ?_
  have hru := h'.rely hu
  have holdu := hold.rely hu
  obtain ⟨r, hrec⟩ := hru.working.at_.base.record
  rw [hrec]
  dsimp only
  by_cases hc : r.cancelRequested = true
  · rw [if_pos hc]
    refine wps_modifyJob_bind (wps_pure fun t ht hIt => ⟨holdu.rely ht, ?_, nofun, fun _ => ?_⟩)
    · exact (hru.update hIu hrec).1.rely ht
    · exact (stable_cancelRequested (τ := τ) id).rely ⟨r, hrec, hc⟩ ht hIt
  · rw [if_neg hc]
    refine wps_now_bind fun now => wps_act_bind fun v hv hIv => ?_
    have hrv := hru.rely hv
    have holdv := holdu.rely hv
    have hrecv : v.jobs.get? id = some r := by
      rw [(hv.lock holdu.1).2.1]
      exact hrec
    refine owes_saveJob hIv holdv.1 (hrv.begin hIv hrecv hsaved hc now) ?_ fun hIw => ?_
    · intro τ' mode' r' hne hw
      have hid : r.jobId = id := hIv.ids id r hrecv
      have hw' : v.workers.get? r.jobId = some ⟨τ', mode'⟩ := hw
      rw [hid, hrv.working.at_.base.registered] at hw'
      cases hw'
      exact absurd rfl hne
    · refine wps_modifyJob_bind (wps_pure fun t ht _ => ?_)
      have hbegun := hrv.begun hrecv hsaved now
      have hid : id = r.jobId := (hIv.ids id r hrecv).symm
      have hrecw : (v.saveJob τ { r with switchStarted := true, updatedAt := now }).jobs.get? id =
          some { r with switchStarted := true, updatedAt := now } := by
        rw [get?_saveJob, if_pos hid]
      obtain ⟨hupdated, hcore⟩ := hbegun.update hIw hrecw
      refine ⟨?_, hupdated.rely ht, fun _ => ?_, nofun⟩
      · have hkeys : KeysWithin { r with switchStarted := true, updatedAt := now } r :=
          KeysWithin.refl r
        have hrec' : v.jobs.get? r.jobId = some r := hid ▸ hrecv
        have hholds : Holds τ (v.saveJob τ { r with switchStarted := true, updatedAt := now }) :=
          holdv.saveJob hrec' hkeys
        exact hholds.rely ht
      · have hswitching : Switching { l.job with switchStarted := true } := ⟨hsaved, rfl⟩
        exact hswitching.kept (Kept.of_core hcore)

/-! ### The phases -/

theorem wpw_cancelOr {Q : α → Local → World → Prop} {a : α} {m : Service Local α}
    (hgo : ∀ t, Inv t → Running τ id l.job t → wpw τ id Q m l t)
    (hend : ∀ l' t, Inv t → Done τ id false t → Q a l' t) :
    wpw τ id Q (do if ← Service.cancelIfRequested id then pure a else m) l s := by
  refine wps_bind (wpw_cancelIfRequested h ?_ ?_)
  · intro t hI ht _
    rw [if_neg Bool.false_ne_true]
    exact hgo t hI ht
  · intro l' t _ hD
    rw [if_pos rfl]
    exact wps_pure fun u hu hI => hend l' u hI (hD.rely hu)

/-- The prior images are captured and the target override is written: the first part of
`_worker`, which may also end the worker. -/
theorem wpw_prepare {Q : Bool → Local → World → Prop}
    (hQ : ∀ l' t, Inv t → Running τ id l'.job t → Captured l'.job → Q true l' t)
    (hend : ∀ l' t, Inv t → Done τ id false t → Q false l' t) :
    wpw τ id Q (Service.prepare id plan) l s := by
  refine wps_bind (wpw_host (.preflight plan) h nofun nofun ?_)
  intro report s1 _ h1 _
  refine wps_bind (wpw_check h1 fun s2 _ h2 => ?_)
  refine wps_bind (wpw_host .deploymentFingerprint h2 nofun nofun ?_)
  intro initialFingerprint s3 _ h3 _
  refine wpw_cancelOr h3 (fun s4 _ h4 => ?_) hend
  refine wps_bind (wpw_stage h4.working h4.sound nofun ?_)
  intro l5 s5 _ h5 _
  refine wps_bind (wpw_host (.pullAndValidate plan) h5 nofun nofun ?_)
  intro _ s6 _ h6 _
  refine wps_bind (wpw_host (.preflight plan) h6 nofun nofun ?_)
  intro postPullReport s7 _ h7 _
  refine wps_bind (wpw_check h7 fun s8 _ h8 => ?_)
  refine wps_bind (wpw_host .deploymentFingerprint h8 nofun nofun ?_)
  intro fingerprint s9 _ h9 _
  refine wps_bind (wpw_check h9 fun s10 _ h10 => ?_)
  refine wps_bind (wpw_host (.captureSnapshot id) h10 nofun nofun ?_)
  intro snapshot s11 _ h11 _
  -- The prior images are on record.
  have hW11 : Working τ id { l5.job with snapshot := some snapshot } s11 :=
    h11.working.modify rfl rfl rfl rfl rfl rfl (fun h => ⟨rfl, h.2⟩)
      ⟨h11.working.at_.backed.quiesced, h11.working.at_.backed.backup⟩
  have hS11 : Sound { l5.job with snapshot := some snapshot } :=
    ⟨fun hs => ⟨(h11.sound.handoff hs).1, rfl, (h11.sound.handoff hs).2.2⟩, h11.sound.quiesced,
      h11.sound.backup, fun hs => ⟨rfl, (h11.sound.switched hs).2⟩, h11.sound.succeeded⟩
  refine wps_modifyJob_bind (wps_bind (wpw_save hW11 hS11 h11.running ?_))
  intro l12 s12 _ h12 k12
  have hsnapshot : l12.job.snapshot = some snapshot := k12.snapshot
  refine wpw_cancelOr h12 (fun s13 _ h13 => ?_) hend
  -- From here on a failure restores the prior images.
  have hW13 : Working τ id { l12.job with overrideStarted := true } s13 :=
    h13.working.modify rfl rfl rfl rfl rfl rfl (fun h => ⟨h.1, rfl⟩)
      ⟨h13.working.at_.backed.quiesced, h13.working.at_.backed.backup⟩
  have hS13 : Sound { l12.job with overrideStarted := true } :=
    ⟨fun hs => ⟨(h13.sound.handoff hs).1, (h13.sound.handoff hs).2.1, rfl⟩, h13.sound.quiesced,
      h13.sound.backup, fun hs => ⟨(h13.sound.switched hs).1, rfl, (h13.sound.switched hs).2.2⟩,
      h13.sound.succeeded⟩
  refine wps_modifyJob_bind (wps_bind (wpw_save hW13 hS13 h13.running ?_))
  intro l14 s14 _ h14 k14
  have hcaptured : Captured l14.job :=
    ⟨by rw [k14.snapshot]; exact hsnapshot ▸ rfl, k14.overrideStarted⟩
  refine wps_bind (wpw_host (.prepareTargetOverride plan) h14 nofun nofun ?_)
  intro _ s15 _ h15 _
  have hW15 : Working τ id { l14.job with overrideWritten := true } s15 :=
    h15.working.modify rfl rfl rfl rfl rfl rfl (fun h => h)
      ⟨h15.working.at_.backed.quiesced, h15.working.at_.backed.backup⟩
  have hS15 : Sound { l14.job with overrideWritten := true } :=
    ⟨h15.sound.handoff, h15.sound.quiesced, h15.sound.backup, h15.sound.switched,
      h15.sound.succeeded⟩
  refine wps_modifyJob_bind (wps_bind (wpw_save hW15 hS15 h15.running ?_))
  intro l16 s16 _ h16 k16
  have hcaptured16 : Captured l16.job :=
    hcaptured.kept ⟨k16.snapshot, k16.overrideStarted, k16.quiesced, k16.quiescedAt, k16.backup,
      k16.switchStarted⟩
  refine wpw_cancelOr h16 (fun s17 _ h17 => ?_) hend
  refine wps_bind (wpw_host (.updaterHandoffRequired plan) h17 nofun nofun ?_)
  rintro (required : Bool) s18 _ h18 _
  by_cases hrequired : required = true
  · -- The target updater takes over: this worker ends.
    rw [if_pos hrequired]
    have hW18 : Working τ id { l16.job with handoffAttempts := l16.job.handoffAttempts + 1 } s18 :=
      h18.working.modify rfl rfl rfl rfl rfl rfl (fun h => h)
        ⟨h18.working.at_.backed.quiesced, h18.working.at_.backed.backup⟩
    have hS18 : Sound { l16.job with handoffAttempts := l16.job.handoffAttempts + 1 } :=
      ⟨h18.sound.handoff, h18.sound.quiesced, h18.sound.backup, h18.sound.switched,
        h18.sound.succeeded⟩
    refine wps_modifyJob_bind (wps_bind (wpw_stage hW18 hS18 (fun _ => hcaptured16) ?_))
    intro l19 s19 _ h19 _
    refine wps_bind (wpw_host .handoffUpdater h19 nofun nofun ?_)
    intro _ s20 _ h20 hm
    refine wps_pure fun t ht hI => hend _ t hI ((h20.rely ht).working.handedOver ?_)
    obtain ⟨extra, hh, -⟩ := ht.history
    rw [hh]
    exact mem_append_left _ hm
  · rw [if_neg hrequired]
    exact wps_pure fun t ht hI => hQ _ t hI (h18.rely ht) hcaptured16

theorem wpw_completeHandoff (hcaptured : Captured l.job)
    (hQ : ∀ l' t, Inv t → Running τ id l'.job t → Captured l'.job → Q () l' t) :
    wpw τ id Q (Service.completeHandoff id plan) l s := by
  refine wps_getJob_bind (wpr_when ?_ fun _ t ht hI => hQ _ t hI (h.rely ht) hcaptured)
  intro _
  refine wps_bind (wpw_host (.updaterHandoffRequired plan) h nofun nofun ?_)
  rintro (required : Bool) s1 _ h1 _
  by_cases hrequired : required = true
  · rw [if_pos hrequired]
    exact wpw_raise h1
  · rw [if_neg hrequired]
    have hW : Working τ id { l.job with handoffComplete := true } s1 :=
      h1.working.modify rfl rfl rfl rfl rfl rfl (fun h => h)
        ⟨h1.working.at_.backed.quiesced, h1.working.at_.backed.backup⟩
    have hS : Sound { l.job with handoffComplete := true } :=
      ⟨h1.sound.handoff, h1.sound.quiesced, h1.sound.backup, h1.sound.switched,
        h1.sound.succeeded⟩
    refine wps_modifyJob_bind (wpw_save hW hS h1.running ?_)
    intro l2 s2 hI h2 k2
    exact hQ l2 s2 hI h2 (hcaptured.kept ⟨k2.snapshot, k2.overrideStarted, k2.quiesced,
      k2.quiescedAt, k2.backup, k2.switchStarted⟩)

theorem wpw_quiesce (hcaptured : Captured l.job)
    (hQ : ∀ l' t, Inv t → Running τ id l'.job t → Stopped l'.job → Q () l' t) :
    wpw τ id Q (Service.quiesce id) l s := by
  refine wps_getJob_bind (wpr_when ?_ ?_)
  · intro _
    have hW : Working τ id { l.job with quiesceStarted := true } s :=
      h.working.modify rfl rfl rfl rfl rfl rfl (fun h => h)
        ⟨h.working.at_.backed.quiesced, h.working.at_.backed.backup⟩
    have hS : Sound { l.job with quiesceStarted := true } :=
      ⟨h.sound.handoff, h.sound.quiesced, h.sound.backup, h.sound.switched, h.sound.succeeded⟩
    refine wps_modifyJob_bind (wps_bind (wpw_stage hW hS (fun _ => hcaptured) ?_))
    intro l1 s1 _ h1 k1
    have hcaptured1 : Captured l1.job :=
      ⟨k1.snapshot ▸ hcaptured.1, k1.overrideStarted ▸ hcaptured.2⟩
    refine wps_bind (wpw_host .quiesceBackend h1 nofun nofun ?_)
    intro _ s2 _ h2 hm
    refine wps_now_bind fun now => wps_modifyJob_bind ?_
    have hW2 : Working τ id { l1.job with quiesced := true, quiescedAt := some now } s2 :=
      h2.working.modify rfl rfl rfl rfl rfl rfl (fun h => h)
        ⟨fun _ => ⟨τ, hm⟩, h2.working.at_.backed.backup⟩
    have hS2 : Sound { l1.job with quiesced := true, quiescedAt := some now } :=
      ⟨h2.sound.handoff, fun _ => rfl, fun b hb => ⟨(h2.sound.backup b hb).1, rfl⟩,
        h2.sound.switched, h2.sound.succeeded⟩
    refine wpw_save hW2 hS2 h2.running ?_
    intro l3 s3 hI h3 k3
    exact hQ l3 s3 hI h3
      ⟨⟨k3.snapshot ▸ hcaptured1.1, k3.overrideStarted ▸ hcaptured1.2⟩, k3.quiesced⟩
  · intro hq t ht hI
    exact hQ _ t hI (h.rely ht) ⟨hcaptured, by simpa using hq⟩

theorem wpw_backUp (hstopped : Stopped l.job)
    (hQ : ∀ l' t, Inv t → Running τ id l'.job t → Saved l'.job → Q () l' t) :
    wpw τ id Q (Service.backUp id) l s := by
  refine wps_getJob_bind (wpr_when ?_ ?_)
  · intro _
    refine wps_bind (wpw_stage h.working h.sound (fun _ => hstopped.1) ?_)
    intro l1 s1 _ h1 k1
    have hstopped1 : Stopped l1.job := hstopped.kept k1
    refine wps_bind (wps_host (.backupPostgres id) (fun _ _ _ h => by cases h) ?_ ?_)
    · intro dump s2 s3 hs2 _ hs3 _
      have h2 := h1.rely hs2
      have h3 := (h2.host (.backupPostgres id) nofun).rely hs3
      refine wps_getJob_bind ?_
      have hbacked : BackedUp s3.history id := by
        obtain ⟨extra, hh, -⟩ := hs3.history
        refine ⟨s2.history, extra, τ, by simp [hh, World.record],
          h2.working.at_.backed.quiesced hstopped1.2⟩
      cases hat : l1.job.quiescedAt with
      | none => exact wpw_raise h3
      | some quiescedAt =>
        have hW : Working τ id { l1.job with backup := some ⟨dump, true, quiescedAt⟩ } s3 :=
          h3.working.modify rfl rfl rfl rfl rfl rfl (fun h => h)
            ⟨h3.working.at_.backed.quiesced, fun _ => hbacked⟩
        have hS : Sound { l1.job with backup := some ⟨dump, true, quiescedAt⟩ } :=
          ⟨h3.sound.handoff, h3.sound.quiesced,
            fun b hb => by cases hb; exact ⟨rfl, hstopped1.2⟩,
            fun hs => ⟨(h3.sound.switched hs).1, (h3.sound.switched hs).2.1, rfl⟩,
            h3.sound.succeeded⟩
        refine wps_modifyJob_bind (wpw_save hW hS h3.running ?_)
        intro l4 s4 hI h4 k4
        exact hQ l4 s4 hI h4 ⟨⟨k4.snapshot ▸ hstopped1.1.1, k4.overrideStarted ▸ hstopped1.1.2⟩,
          k4.backup ▸ rfl⟩
    · intro e s2 s3 hs2 _ hs3 _
      exact ((h1.rely hs2).hostFailed (.backupPostgres id) nofun).rely hs3
  · intro hb t ht hI
    refine hQ _ t hI (h.rely ht) ⟨hstopped.1, ?_⟩
    cases hbackup : l.job.backup with
    | none => simp [hbackup] at hb
    | some b => rfl

omit h in
theorem wpw_succeed {snapshot : Snapshot} (h : Working τ id l.job s)
    (hsound : Sound l.job) (hswitch : l.job.switchStarted = true)
    (hend : ∀ l' t, Inv t → Done τ id false t → Q () l' t) :
    wpw τ id Q (do
      let now ← Service.nowIso
      Service.modifyJob fun job =>
        { job with receipt := some (Service.successReceipt job snapshot plan now) }
      Service.saveStage .completed "Update completed and verified" .succeeded) l s := by
  refine wps_now_bind fun now => wps_modifyJob_bind ?_
  have hA : At τ id false
      { l.job with receipt := some (Service.successReceipt l.job snapshot plan now) } s :=
    h.at_.modify rfl rfl rfl rfl rfl rfl ⟨h.at_.backed.quiesced, h.at_.backed.backup⟩
  have hS : Sound { l.job with receipt := some (Service.successReceipt l.job snapshot plan now) } :=
    ⟨hsound.handoff, hsound.quiesced, hsound.backup, hsound.switched, hsound.succeeded⟩
  refine wps_publish hA rfl
    (fun now => hS.staged (by simp [Stage.afterHandoff]) (fun _ => hswitch) _ now) ?_ ?_
  · intro now' c t hI hp
    refine hend _ t hI ⟨hp.registered, Ended.of_last hp.did.saves (.inl ⟨?_, rfl⟩)⟩
    exact h.unfailing.did hp.did
  · intro _ _ _ _ _ _ hne
    exact absurd h.guarded hne

theorem wpw_switchOver (hswitching : Switching l.job)
    (hend : ∀ l' t, Inv t → Done τ id false t → Q () l' t) :
    wpw τ id Q (Service.switchOver id plan) l s := by
  have hW : Working τ id { l.job with overrideActivationStarted := true } s :=
    h.working.modify rfl rfl rfl rfl rfl rfl (fun h => h)
      ⟨h.working.at_.backed.quiesced, h.working.at_.backed.backup⟩
  have hS : Sound { l.job with overrideActivationStarted := true } :=
    ⟨h.sound.handoff, h.sound.quiesced, h.sound.backup, h.sound.switched, h.sound.succeeded⟩
  refine wps_modifyJob_bind (wps_bind (wpw_save hW hS h.running ?_))
  intro l1 s1 _ h1 k1
  have hs1 : Switching l1.job :=
    Switching.kept (a := { l.job with overrideActivationStarted := true })
    hswitching k1
  refine wps_bind (wpw_host (.activateTargetOverride plan) h1 nofun (fun _ => hs1) ?_)
  intro _ s2 _ h2 _
  have hW2 : Working τ id { l1.job with overrideActivated := true } s2 :=
    h2.working.modify rfl rfl rfl rfl rfl rfl (fun h => h)
      ⟨h2.working.at_.backed.quiesced, h2.working.at_.backed.backup⟩
  have hS2 : Sound { l1.job with overrideActivated := true } :=
    ⟨h2.sound.handoff, h2.sound.quiesced, h2.sound.backup, h2.sound.switched, h2.sound.succeeded⟩
  refine wps_modifyJob_bind (wps_bind (wpw_save hW2 hS2 h2.running ?_))
  intro l3 s3 _ h3 k3
  have hs3 : Switching l3.job :=
    Switching.kept (a := { l1.job with overrideActivated := true }) hs1 k3
  refine wps_bind (wpw_stage h3.working h3.sound (fun _ => hs3.1.1) ?_)
  intro l4 s4 _ h4 k4
  have hs4 := hs3.kept k4
  refine wps_bind (wpw_host .switchBackend h4 nofun (fun _ => hs4) ?_)
  intro _ s5 _ h5 _
  refine wps_bind (wpw_stage h5.working h5.sound (fun _ => hs4.1.1) ?_)
  intro l6 s6 _ h6 k6
  have hs6 := hs4.kept k6
  refine wps_bind (wpw_host (.verifyBackend plan) h6 nofun nofun ?_)
  intro _ s7 _ h7 _
  refine wps_bind (wpw_stage h7.working h7.sound (fun _ => hs6.1.1) ?_)
  intro l8 s8 _ h8 k8
  have hs8 := hs6.kept k8
  refine wps_bind (wpw_host .switchWebui h8 nofun (fun _ => hs8) ?_)
  intro _ s9 _ h9 _
  refine wps_bind (wpw_stage h9.working h9.sound (fun _ => hs8.1.1) ?_)
  intro l10 s10 _ h10 k10
  have hs10 := hs8.kept k10
  refine wps_bind (wpw_host (.verifyWebui plan) h10 nofun nofun ?_)
  intro _ s11 _ h11 _
  refine wps_bind (wpw_stage h11.working h11.sound (fun _ => hs10.1.1) ?_)
  intro l12 s12 _ h12 k12
  have hs12 := hs10.kept k12
  refine wps_bind (wpw_host (.observe plan) h12 nofun nofun ?_)
  intro _ s13 _ h13 _
  refine wps_bind (wpw_host .installedIdentity h13 nofun nofun ?_)
  intro installed s14 _ h14 _
  refine wps_bind (wpw_check h14 fun s15 _ h15 => ?_)
  have hW16 : Working τ id { l12.job with installedTarget := some installed } s15 :=
    h15.working.modify rfl rfl rfl rfl rfl rfl (fun h => h)
      ⟨h15.working.at_.backed.quiesced, h15.working.at_.backed.backup⟩
  have hS16 : Sound { l12.job with installedTarget := some installed } :=
    ⟨h15.sound.handoff, h15.sound.quiesced, h15.sound.backup, h15.sound.switched,
      h15.sound.succeeded⟩
  have hs16 : ({ l12.job with installedTarget := some installed } : Job).switchStarted = true :=
    hs12.2
  refine wps_modifyJob_bind ?_
  generalize ({ l12.job with installedTarget := some installed } : Job) = job at hW16 hS16 hs16 ⊢
  refine wps_getJob_bind ?_
  dsimp only
  cases job.snapshot with
  | none => exact wpw_raise h15
  | some snapshot => exact wpw_succeed (l := ⟨job, l12.published⟩) hW16 hS16 hs16 hend

theorem wpw_update (hcaptured : Captured l.job)
    (hend : ∀ l' t, Inv t → Done τ id false t → Q () l' t) :
    wpw τ id Q (Service.update id plan) l s := by
  refine wps_bind (wpw_completeHandoff h hcaptured fun l1 s1 _ h1 hc1 => ?_)
  refine wpw_cancelOr h1 (fun s2 _ h2 => ?_) hend
  refine wps_bind (wpw_quiesce h2 hc1 fun l3 s3 _ h3 hc3 => ?_)
  refine wpw_cancelOr h3 (fun s4 _ h4 => ?_) hend
  refine wps_bind (wpw_backUp h4 hc3 fun l5 s5 _ h5 hc5 => ?_)
  refine wpw_cancelOr h5 (fun s6 _ h6 => ?_) hend
  refine wps_bind (wpw_beginSwitch h6 hc5 fun b l7 s7 _ h7 hc7 hcancel => ?_)
  cases b with
  | true =>
    rw [if_pos rfl]
    exact wpw_switchOver h7 (hc7 rfl) hend
  | false =>
    rw [if_neg Bool.false_ne_true]
    refine wps_bind (wpw_cancelIfRequested h7 ?_ ?_)
    · -- The cancellation that refused the switch is still there.
      rintro t _ _ ⟨s', r, hs', hI', hrec, hno⟩
      obtain ⟨r', hrec', hc⟩ := (stable_cancelRequested (τ := τ) id).rely (hcancel rfl) hs' hI'
      rw [hrec] at hrec'
      cases hrec'
      rw [hc, (hI'.valid id r hrec).cancelled hc] at hno
      exact absurd rfl hno
    · exact fun l' t _ hD => wps_pure fun u hu hI => hend l' u hI (hD.rely hu)

end

structure Quiet (τ : Nat) (h : List Entry) : Prop where
  saves : savesOf τ h = []
  unfailing : Unfailing τ h

theorem Quiet.rely (h : Quiet τ s.history) (hr : Rely τ s t) : Quiet τ t.history :=
  ⟨by simp [(Did.of_rely hr).saves, h.saves], h.unfailing.did (Did.of_rely hr)⟩

theorem Quiet.calm {h : List Entry} (hq : Quiet τ h) : Calm τ h := by
  refine ⟨hq.unfailing.1, ?_⟩
  rw [hq.saves]
  exact fun a ha => nomatch ha

theorem wpw_workerBody (hB : Base τ id false s) (hI0 : Inv s) (hrec : s.jobs.get? id = some l.job)
    (hquiet : Quiet τ s.history) (hend : ∀ l' t, Inv t → Done τ id false t → Q () l' t) :
    wpw τ id Q (Service.workerBody id) l s := by
  have hA : At τ id false l.job s :=
    ⟨hB, hI0.ids id _ hrec, ⟨_, hrec, Agrees.refl _⟩, hI0.backed id _ hrec⟩
  have hS := (hI0.valid id _ hrec).sound
  refine wps_bind (wps_beginLifecycle ?_ ?_ ?_)
  · intro s' hs _
    exact ⟨(hB.rely hs).record, .inl (hB.rely hs).free⟩
  · intro s' t u hs _ hg _ hu _
    have hWt : Working τ id l.job t :=
      { at_ := (hA.rely hs).frame (h := []) hg.up hg.jobs hg.workers (fun h => hg.reserving ▸ h)
          (by simp [hg.history])
        guarded := hg.held
        unfailing := by rw [hg.history]; exact (hquiet.rely hs).unfailing
        captured := by
          rw [hg.history, (hquiet.rely hs).saves]
          exact fun a ha => nomatch ha }
    have hWu := hWt.rely hu
    refine wps_getJob_bind ?_
    by_cases hstage : l.job.stage.afterHandoff = true
    · -- Resumed after the handoff: the loaded record says what was done before.
      obtain ⟨hrunning, hsnapshot, hoverride⟩ := hS.handoff hstage
      have hsync : InSync id l.job s := ⟨_, hrec, rfl, by rw [hrunning]; simp⟩
      have hsync' := hsync.rely hB.registered hs
      have hsyncu : InSync id l.job u := by
        refine InSync.rely ?_ hWt.at_.base.registered hu
        obtain ⟨r, hr, hcore, hne⟩ := hsync'
        exact ⟨r, hg.jobs ▸ hr, hcore, hne⟩
      have hR : Running τ id l.job u := ⟨hWu, hsyncu, hS, hrunning⟩
      refine wps_bind (wpr_when (fun h => by simp [hstage] at h) fun _ v hv _ => ?_)
      refine wps_bind (wpw_host (.loadVerifiedPlan l.job.release) (hR.rely hv) nofun nofun ?_)
      intro plan w _ hw _
      rw [if_pos hstage]
      exact wpw_update hw ⟨hsnapshot, hoverride⟩ hend
    · have hgo : ∀ l' v, Inv v → Running τ id l'.job v →
          wpw τ id Q (do
            let plan ← Service.host id (.loadVerifiedPlan l.job.release)
            if l.job.stage.afterHandoff then Service.update id plan
            else if ← Service.prepare id plan then Service.update id plan) l' v := by
        intro l' v _ hv
        refine wps_bind (wpw_host (.loadVerifiedPlan l.job.release) hv nofun nofun ?_)
        intro plan w _ hw _
        rw [if_neg hstage]
        refine wps_bind (wpw_prepare hw ?_ ?_)
        · intro l'' x _ hx hcaptured
          exact wpw_update hx hcaptured hend
        · intro l'' x _ hD
          exact wps_pure fun y hy hI => hend _ y hI (hD.rely hy)
      refine wps_bind (wpr_when (fun _ => ?_) fun h => by simp [hstage] at h)
      exact wpw_stage hWu hS nofun fun l' v hI hv _ => hgo l' v hI hv
  · intro e s' t hs _ _ ht _
    have hbroken : Broken τ id (s'.record (.refused τ id)) := by
      refine ⟨(hB.rely hs).frame rfl rfl rfl (fun h => h) rfl, ?_, ?_⟩
      · rw [(Did.refused s' id).rollbacks, (hquiet.rely hs).unfailing.1]
        rfl
      · rw [(Did.refused s' id).saves, (hquiet.rely hs).saves]
        exact fun a ha => nomatch ha
    exact hbroken.rely ht

theorem wps_workerFailed (h : Broken τ id s) (hQ : ∀ l' t, Inv t → Done τ id false t → Q () l' t)
    (hE : ∀ e l' t, Inv t → Done τ id false t → E e l' t) :
    wps τ Q E (Service.workerFailed id e) l s := by
  refine wps_act_bind fun s' hs hI => owes_loadJob hI fun _ => ?_
  have h' := h.rely hs
  obtain ⟨r, hrec⟩ := h'.base.record
  rw [hrec]
  refine wps_modifyJob_bind ?_
  simp only [Option.getD_some]
  generalize hjob : ({ r with error := some (Service.updateError e) } : Job) = job
  refine wps_getJob_bind ?_
  have hA : At τ id false job s' := by
    subst hjob
    have hback := hI.backed id r hrec
    exact ⟨h'.base, hI.ids id r hrec,
      ⟨r, hrec, rfl, rfl, rfl, rfl, fun hc => hc, KeysWithin.refl r⟩,
      ⟨hback.quiesced, hback.backup⟩⟩
  have hS : Sound job := by
    subst hjob
    have hsound := (hI.valid id r hrec).sound
    exact ⟨hsound.handoff, hsound.quiesced, hsound.backup, hsound.switched, hsound.succeeded⟩
  by_cases hcaptured : (job.snapshot.isSome && job.overrideStarted) = true
  · rw [if_pos hcaptured]
    rw [Bool.and_eq_true] at hcaptured
    have hA' : At τ id false (Service.UpdateFailed job) s' :=
      hA.modify rfl rfl rfl rfl rfl rfl ⟨hA.backed.quiesced, hA.backed.backup⟩
    have hS' : Sound (Service.UpdateFailed job) :=
      ⟨hS.handoff, hS.quiesced, hS.backup, hS.switched, hS.succeeded⟩
    refine wps_modifyJob_bind (wps_bind (wps_saveRolling hA' hS' h'.rollbacks hcaptured.1 ?_))
    intro l1 t _ hdoomed
    exact hdoomed.rollbackWorker hQ fun e l' u hI _ hD => hE e l' u hI hD
  · rw [if_neg hcaptured]
    have hno : ¬ Captured job := by
      rintro ⟨hsnapshot, hoverride⟩
      simp [hsnapshot, hoverride] at hcaptured
    have hcalm : Calm τ s'.history := by
      refine ⟨h'.rollbacks, fun a ha hc => ?_⟩
      obtain ⟨r', hrec', hr', -⟩ := h'.captured a ha hc
      rw [hrec] at hrec'
      cases hrec'
      subst hjob
      exact hno hr'
    exact wps_publishEarly hA hS hcalm hno rfl (stage_of_not_captured hS (by simpa using hcaptured))
      (by simp) hQ fun e l' u hI _ hD => hE e l' u hI hD

/-- **The update worker ends well**, whatever record it is started on. -/
theorem wps_worker (hB : Base τ id false s)
    (hquiet : Quiet τ s.history) (hQ : ∀ l' t, Inv t → Ended τ t.history → Q () l' t)
    (hE : ∀ e l' t, Inv t → Ended τ t.history → E e l' t) :
    wps τ Q E (Service.worker id) l s := by
  refine wps_act_bind fun s' hs hI => owes_loadJob hI fun _ => ?_
  have hB' := hB.rely hs
  obtain ⟨r, hrec⟩ := hB'.record
  rw [hrec]
  refine wps_setJob_bind (wpr_andFinally (wpr_orElse ?_))
  refine wpr_mono (wpw_workerBody (Q := fun _ _ t => Done τ id false t) hB' hI hrec
    (hquiet.rely hs) fun _ _ _ hD => hD) ?_ ?_
  · intro _ l' t hIt ht
    exact wps_releaseUnlessPublished (ht t (Rely.refl τ t) hIt)
      (fun u hIu hD => hQ _ u hIu hD.ended) fun e u hIu _ hD => hE e _ u hIu hD.ended
  · intro e l' t hIt ht
    refine wps_workerFailed (ht t (Rely.refl τ t) hIt) ?_ ?_
    · intro l'' u _ hD
      exact wps_releaseUnlessPublished hD (fun v hIv hD => hQ _ v hIv hD.ended)
        fun e v hIv _ hD => hE e _ v hIv hD.ended
    · intro e' l'' u _ hD
      exact wps_releaseUnlessPublished hD (fun v hIv hD => hE _ _ v hIv hD.ended)
        fun e v hIv _ hD => hE e _ v hIv hD.ended

end Phases

end AgenticKibana.Updater
