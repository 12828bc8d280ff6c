import AgenticKibana.Updater.WorkerRules

/-!
# The rollback worker

`_rollback_worker` ends well from every record it is started on: it runs the rollback at
most once, from the snapshot of the record and without the database, and the last record
it writes is terminal and no success.  It raises only where it did not hold the lifecycle
guard when it was started.
-/

namespace AgenticKibana.Updater

open AgenticKibana.Library Threads List

variable {τ : Nat} {id : JobId} {mode : Bool}

/-! ### How a worker ends -/

variable {h : List Entry} {s t s0 : World} {saves : List Job}

theorem Obstructed.append (ho : Obstructed τ h) (h' : List Entry) :
    Obstructed τ (h ++ h') := by
  rcases ho with ⟨id, hm⟩ | ⟨z, hz, hop⟩
  · exact .inl ⟨id, mem_append_left _ hm⟩
  · exact .inr ⟨z, by rw [savesOf_append]; exact mem_append_left _ hz, hop⟩

theorem Unfailing.did (h : Unfailing τ s.history)
    (hd : Did τ saves [] [] s t) : Unfailing τ t.history :=
  ⟨by simp [hd.rollbacks, h.1], by simp [hd.failures, h.2]⟩

theorem Ended.did (h : Ended τ s.history) (hd : Did τ [] [] [] s t) :
    Ended τ t.history := by
  have hsaves : savesOf τ t.history = savesOf τ s.history := by simpa using hd.saves
  have hrollbacks : rollbacksOf τ t.history = rollbacksOf τ s.history := by
    simpa using hd.rollbacks
  obtain ⟨extra, hh⟩ := hd.history
  refine ⟨hrollbacks ▸ h.once, hrollbacks ▸ h.preserves, ?_⟩
  rw [hsaves]
  intro hcaptured
  obtain ⟨z, hz, hcase⟩ := h.terminal hcaptured
  refine ⟨z, hz, ?_⟩
  rw [hrollbacks]
  rcases hcase with ⟨hun, hsucceeded⟩ | ⟨hun, id, hm⟩ | hrestored | ⟨hnone, hfailed, hobstructed⟩
  · exact .inl ⟨hun.did hd, hsucceeded⟩
  · exact .inr (.inl ⟨hun.did hd, id, hh ▸ mem_append_left _ hm⟩)
  · refine .inr (.inr (.inl ?_))
    obtain ⟨snapshot, hsnapshot, hran, hstatus⟩ := hrestored
    exact ⟨snapshot, hsnapshot, hrollbacks.trans hran, hstatus⟩
  · exact .inr (.inr (.inr ⟨hnone, hfailed, hh ▸ hobstructed.append extra⟩))

structure Calm (τ : Nat) (h : List Entry) : Prop where
  rollbacks : rollbacksOf τ h = []
  saves : ∀ a ∈ savesOf τ h, ¬ Captured a

theorem Calm.ended (hc : Calm τ h) : Ended τ h where
  once := by simp [hc.rollbacks]
  preserves := by simp [hc.rollbacks]
  terminal := by
    rintro ⟨a, ha, hcaptured⟩
    exact absurd hcaptured (hc.saves a ha)

theorem Calm.did {failures : List HostCall}
    (hc : Calm τ s.history) (hd : Did τ saves [] failures s t)
    (hsaves : ∀ a ∈ saves, ¬ Captured a) : Calm τ t.history := by
  refine ⟨by simp [hd.rollbacks, hc.rollbacks], ?_⟩
  rw [hd.saves]
  intro a ha
  rcases mem_append.mp ha with ha | ha
  · exact hc.saves a ha
  · exact hsaves a ha

theorem Calm.rely (hc : Calm τ s.history) (hr : Rely τ s t) : Calm τ t.history :=
  hc.did (Did.of_rely hr) fun a ha => by simp at ha

variable {z : Job}

theorem Ended.of_last (hsaves : savesOf τ h = saves ++ [z])
    (hcase : (Unfailing τ h ∧ z.status = .succeeded) ∨ Restored τ h z ∨
      (rollbacksOf τ h = [] ∧ z.status = .failed ∧ Obstructed τ h) ∨ Calm τ h) : Ended τ h := by
  have hlast : (savesOf τ h).getLast? = some z := by simp [hsaves]
  rcases hcase with ⟨hun, hstatus⟩ | ⟨snapshot, hsnapshot, hrollbacks, hstatus⟩ |
    ⟨hnone, hfailed, hwhy⟩ | hcalm
  · exact ⟨by simp [hun.1], by simp [hun.1], fun _ => ⟨z, hlast, .inl ⟨hun, hstatus⟩⟩⟩
  · exact ⟨by simp [hrollbacks], by simp [hrollbacks],
      fun _ => ⟨z, hlast, .inr (.inr (.inl ⟨snapshot, hsnapshot, hrollbacks, hstatus⟩))⟩⟩
  · exact ⟨by simp [hnone], by simp [hnone],
      fun _ => ⟨z, hlast, .inr (.inr (.inr ⟨hnone, hfailed, hwhy⟩))⟩⟩
  · exact hcalm.ended

structure Done (τ : Nat) (id : JobId) (mode : Bool) (s : World) : Prop where
  registered : s.workers.get? id = some ⟨τ, mode⟩
  ended : Ended τ s.history

theorem Done.rely (h : Done τ id mode s) (hr : Rely τ s t) : Done τ id mode t :=
  ⟨(hr.worker id mode h.registered).1, h.ended.did (Did.of_rely hr)⟩

variable {Q : Unit → Local → World → Prop} {E : Failure → Local → World → Prop} {l : Local}

theorem wps_releaseUnlessPublished (hD : Done τ id mode s)
    (hQ : ∀ t, Inv t → Done τ id mode t → Q () l t)
    (hE : ∀ e t, Inv t → l.published = false → Done τ id mode t → E e l t) :
    wps τ Q E (Service.releaseUnlessPublished id) l s := by
  refine wps_bind (wpr_get fun s1 h1 _ => wpr_when ?_ ?_)
  · intro hpublished
    refine wps_act_bind fun s2 h2 hI2 => owes_loadJob hI2 fun _ => ?_
    refine wps_act_bind fun s3 h3 hI3 => ?_
    have hD3 := ((hD.rely h1).rely h2).rely h3
    refine owes_releaseLifecycle hI3 (.inl ⟨mode, hD3.registered⟩) ?_ ?_
    · intro t _ _ hworkers _ _ hhistory _
      refine wps_pure fun u hu hIu => hQ u hIu (Done.rely ?_ hu)
      exact ⟨hworkers ▸ hD3.registered, hD3.ended.did (Did.of_history hhistory)⟩
    · intro e _ _
      exact wps_raise fun u hu hIu => hE e u hIu (by simpa using hpublished) (hD3.rely hu)
  · intro _ s2 h2 hI2
    exact hQ s2 hI2 ((hD.rely h1).rely h2)

structure Unrestored (τ : Nat) (id : JobId) (mode : Bool) (s0 : World) (job : Job) (s : World) :
    Prop where
  at_ : At τ id mode job s
  sound : Sound job
  guarded : s0.lifecycle = some id → s.lifecycle = some id
  why : (∃ snapshot, job.snapshot = some snapshot ∧ rollbacksOf τ s.history = [(snapshot, false)]) ∨
    (rollbacksOf τ s.history = [] ∧
      ((∃ id', Entry.refused τ id' ∈ s.history) ∨ job.rollbackOperatorRequested = some true)) ∨
    (Calm τ s.history ∧ job.snapshot = none)

variable {job : Job}

theorem Unrestored.rely (h : Unrestored τ id mode s0 job s) (hr : Rely τ s t) :
    Unrestored τ id mode s0 job t := by
  have hrollbacks : rollbacksOf τ t.history = rollbacksOf τ s.history := by
    simpa using (Did.of_rely hr).rollbacks
  obtain ⟨extra, hh, -⟩ := hr.history
  refine ⟨h.at_.rely hr, h.sound,
    fun hl => (hr.worker id mode h.at_.base.registered).2.2 (h.guarded hl), ?_⟩
  rcases h.why with ⟨snapshot, hsnapshot, hran⟩ | ⟨hnone, hwhy⟩ | ⟨hcalm, hlacks⟩
  · exact .inl ⟨snapshot, hsnapshot, hrollbacks.trans hran⟩
  · refine .inr (.inl ⟨hrollbacks.trans hnone, hwhy.imp ?_ fun hop => hop⟩)
    rintro ⟨id', hm⟩
    exact ⟨id', hh ▸ mem_append_left _ hm⟩
  · exact .inr (.inr ⟨hcalm.rely hr, hlacks⟩)

theorem Unrestored.ended (h : Unrestored τ id mode s0 job s) (hd : Did τ [z] [] [] s t)
    (hsnapshot : z.snapshot = job.snapshot)
    (hoperator : z.rollbackOperatorRequested = job.rollbackOperatorRequested)
    (hstatus : z.status = .failed) : Ended τ t.history := by
  have hrollbacks : rollbacksOf τ t.history = rollbacksOf τ s.history := by
    simpa using hd.rollbacks
  obtain ⟨extra, hh⟩ := hd.history
  refine Ended.of_last hd.saves ?_
  rcases h.why with ⟨snapshot, hsome, hran⟩ | ⟨hnone, hwhy⟩ | ⟨hcalm, hlacks⟩
  · exact .inr (.inl
      ⟨snapshot, hsnapshot.trans hsome, hrollbacks.trans hran, .inr (.inr hstatus)⟩)
  · refine .inr (.inr (.inl ⟨hrollbacks.trans hnone, hstatus, ?_⟩))
    rcases hwhy with ⟨id', hm⟩ | hop
    · exact .inl ⟨id', hh ▸ mem_append_left _ hm⟩
    · exact .inr ⟨z, by rw [hd.saves]; simp, hoperator.trans hop⟩
  · refine .inr (.inr (.inr (hcalm.did hd ?_)))
    rintro a ha ⟨hsome, -⟩
    cases mem_singleton.mp ha
    rw [hsnapshot, hlacks] at hsome
    cases hsome

theorem wps_rollbackFailed (h : Unrestored τ id mode s0 l.job s)
    (hQ : ∀ l' t, Inv t → l'.published = true → Done τ id mode t → Q () l' t)
    (hE : ∀ e l' t, Inv t → s0.lifecycle ≠ some id → Done τ id mode t → E e l' t) :
    wps τ Q E Service.rollbackFailed l s := by
  refine wps_modifyJob_bind (wps_getJob_bind ?_)
  have hA : At τ id mode (Service.RollbackFailed l.job) s :=
    h.at_.modify rfl rfl rfl rfl rfl rfl ⟨h.at_.backed.quiesced, h.at_.backed.backup⟩
  have hsound : Sound (Service.RollbackFailed l.job) :=
    ⟨h.sound.handoff, h.sound.quiesced, h.sound.backup, h.sound.switched, h.sound.succeeded⟩
  refine wps_publish hA rfl (fun now => hsound.staged (by simp [Stage.afterHandoff])
    (by simp) _ now) ?_ ?_
  · intro now c t hI hp
    exact hQ _ t hI rfl ⟨hp.registered, h.ended hp.did rfl rfl rfl⟩
  · intro now c e t hI hp hne
    exact hE e _ t hI (fun hl => hne (h.guarded hl)) ⟨hp.registered, h.ended hp.did rfl rfl rfl⟩

/-! ### A rollback under way -/

structure Restoring (τ : Nat) (id : JobId) (mode : Bool) (job : Job) (s : World) : Prop where
  at_ : At τ id mode job s
  sound : Sound job
  guarded : s.lifecycle = some id
  rollbacks : rollbacksOf τ s.history = []
  calm : job.snapshot = none → Calm τ s.history

theorem Restoring.rely (h : Restoring τ id mode job s) (hr : Rely τ s t) :
    Restoring τ id mode job t where
  at_ := h.at_.rely hr
  sound := h.sound
  guarded := (hr.worker id mode h.at_.base.registered).2.2 h.guarded
  rollbacks := by simp [(Did.of_rely hr).rollbacks, h.rollbacks]
  calm := fun hnone => (h.calm hnone).rely hr

theorem Restoring.host (h : Restoring τ id mode job s) (call : HostCall) (ok : Bool)
    (hcall : ∀ snapshot backup restore, call ≠ .rollback snapshot backup restore) :
    Restoring τ id mode job (s.record (.host τ id call ok)) where
  at_ := h.at_.frame rfl rfl rfl (fun h => h) rfl
  sound := h.sound
  guarded := h.guarded
  rollbacks := by simp [(Did.host s id ok hcall).rollbacks, h.rollbacks]
  calm := fun hnone => (h.calm hnone).did (Did.host s id ok hcall) fun a ha => by simp at ha

theorem Restoring.unrestored (h : Restoring τ id mode job s)
    (hwhy : job.rollbackOperatorRequested = some true ∨ job.snapshot = none) :
    Unrestored τ id mode s0 job s where
  at_ := h.at_
  sound := h.sound
  guarded := fun _ => h.guarded
  why := by
    rcases hwhy with hop | hnone
    · exact .inr (.inl ⟨h.rollbacks, .inr hop⟩)
    · exact .inr (.inr ⟨h.calm hnone, hnone⟩)

theorem Restoring.wrote {job' : Job} (h : Restoring τ id mode job s)
    (hw : Wrote τ id mode job' s t) (hsound : Sound job')
    (hsnapshot : job'.snapshot = job.snapshot) : Restoring τ id mode job' t where
  at_ := hw.at_
  sound := hsound
  guarded := hw.guarded h.guarded
  rollbacks := by simp [hw.did.rollbacks, h.rollbacks]
  calm := by
    intro hnone
    refine (h.calm (hsnapshot ▸ hnone)).did hw.did ?_
    rintro a ha ⟨hsome, -⟩
    cases mem_singleton.mp ha
    rw [hnone] at hsome
    cases hsome

section Body

variable {l : Local} {s0 s : World} {Q : Unit → Local → World → Prop}

theorem wps_recheckAuthorization (h : Restoring τ id mode l.job s)
    (hQ : ∀ t, Inv t → Restoring τ id mode l.job t → Q () l t) :
    wps τ Q (fun _ l' t => Unrestored τ id mode s0 l'.job t)
      (Service.recheckAuthorization id) l s := by
  refine wps_getJob_bind (wpr_when ?_ fun _ t ht hI => hQ t hI (h.rely ht))
  intro hop
  have hrequested : l.job.rollbackOperatorRequested = some true := by
    revert hop
    cases l.job.rollbackOperatorRequested with
    | none => exact fun hop => by cases hop
    | some b => exact fun hop => congrArg some hop
  refine wps_bind (wps_host .installedIdentity (fun _ _ _ hs => by cases hs) ?_ ?_)
  · intro current s' t hs hI ht hIt
    have hR := ((h.rely hs).host .installedIdentity true fun _ _ _ h => by cases h).rely ht
    refine wpr_when ?_ fun _ u hu hIu => hQ u hIu (hR.rely hu)
    intro _
    exact wps_raise fun u hu hIu => (hR.rely hu).unrestored (.inl hrequested)
  · intro e s' t hs hI ht hIt
    have hR := ((h.rely hs).host .installedIdentity false fun _ _ _ h => by cases h).rely ht
    exact hR.unrestored (.inl hrequested)

variable {job : Job}

theorem RolledBack.at_ (h : At τ id mode job s) (snapshot : Snapshot) (now : Time) :
    At τ id mode (Service.RolledBack job snapshot now) s := by
  unfold Service.RolledBack
  split <;>
    exact h.modify rfl rfl rfl rfl rfl rfl ⟨h.backed.quiesced, h.backed.backup⟩

theorem RolledBack.sound (h : Sound job) (snapshot : Snapshot) (now : Time) :
    Sound (Service.RolledBack job snapshot now) := by
  unfold Service.RolledBack
  split <;> exact ⟨h.handoff, h.quiesced, h.backup, h.switched, h.succeeded⟩

theorem RolledBack.snapshot (job : Job) (snapshot : Snapshot) (now : Time) :
    (Service.RolledBack job snapshot now).snapshot = job.snapshot := by
  unfold Service.RolledBack
  split <;> rfl

theorem rollbackTerminal_cases (job : Job) :
    Service.rollbackTerminal job = .rolledBack ∨ Service.rollbackTerminal job = .cancelled := by
  unfold Service.rollbackTerminal
  split
  · exact .inr rfl
  · exact .inl rfl

theorem wps_rollbackBody (hA : At τ id mode l.job s) (hsound : Sound l.job)
    (hnone : rollbacksOf τ s.history = []) (hcalm : l.job.snapshot = none → Calm τ s.history) :
    wps τ (fun _ l' t => l'.published = true ∧ Done τ id mode t)
      (fun _ l' t => Unrestored τ id mode s l'.job t) (Service.rollbackBody id) l s := by
  refine wps_bind (wps_beginLifecycle ?_ ?_ ?_)
  · intro s' hs _
    exact ⟨(hA.rely hs).base.record, .inl (hA.rely hs).base.free⟩
  · intro s' t u hs _ hg _ hu _
    have hAs := hA.rely hs
    have hR : Restoring τ id mode l.job t :=
      { at_ := hAs.frame (h := []) hg.up hg.jobs hg.workers (fun h => hg.reserving ▸ h)
          (by simp [hg.history])
        sound := hsound
        guarded := hg.held
        rollbacks := by rw [hg.history]; simp [(Did.of_rely hs).rollbacks, hnone]
        calm := fun hn => by rw [hg.history]; exact (hcalm hn).rely hs }
    refine wps_bind (wps_recheckAuthorization (hR.rely hu) fun v _ hRv => ?_)
    refine wps_bind (wps_saveStage hRv.at_ rfl (fun now => hRv.sound.staged
      (by simp [Stage.afterHandoff]) (by simp) _ now) ?_)
    intro now c w _ hw
    have hstaged : Sound (Service.Staged l.job .restoringRelease
        "Restoring the prior application images; PostgreSQL is preserved" .rollingBack now) :=
      hRv.sound.staged (by simp [Stage.afterHandoff]) (by simp) _ now
    have hRw := hRv.wrote hw (hstaged.written c) rfl
    refine wps_modifyJob_bind (wps_getJob_bind ?_)
    -- The copy with the database restore off.
    generalize hjob : ({ (Service.Staged l.job .restoringRelease _ .rollingBack now).written c with
      rollbackRestoreDatabase := some false } : Job) = job
    have hRjob : Restoring τ id mode job w := by
      subst hjob
      exact ⟨hRw.at_.modify rfl rfl rfl rfl rfl rfl
          ⟨hRw.at_.backed.quiesced, hRw.at_.backed.backup⟩,
        ⟨hRw.sound.handoff, hRw.sound.quiesced, hRw.sound.backup, hRw.sound.switched,
          hRw.sound.succeeded⟩, hRw.guarded, hRw.rollbacks, hRw.calm⟩
    cases hsnapshot : job.snapshot with
    | none =>
      exact wps_raise fun x hx _ => (hRjob.rely hx).unrestored (.inr hsnapshot)
    | some snapshot =>
      have hran : ∀ {x y : World} (ok : Bool), Rely τ w x →
          Rely τ (x.record (.host τ id (.rollback snapshot job.backup false) ok)) y →
          At τ id mode job y ∧ y.lifecycle = some id ∧
            rollbacksOf τ y.history = [(snapshot, false)] := by
        intro x y ok hx hy
        have hRx := hRjob.rely hx
        have hAx : At τ id mode job
            (x.record (.host τ id (.rollback snapshot job.backup false) ok)) :=
          hRx.at_.frame rfl rfl rfl (fun h => h) rfl
        refine ⟨hAx.rely hy, (hy.worker id mode hAx.base.registered).2.2 hRx.guarded, ?_⟩
        rw [((Did.rollback x id snapshot job.backup false ok).rely hy).rollbacks, hRx.rollbacks]
        rfl
      dsimp only
      refine wps_bind (wps_host (.rollback snapshot job.backup false)
        (fun _ _ _ hs => by cases hs) ?_ ?_)
      · intro _ x y hx _ hy _
        obtain ⟨hAy, hguard, hrollbacks⟩ := hran true hx hy
        refine wps_now_bind fun now => wps_modifyJob_bind ?_
        refine wps_publish (RolledBack.at_ hAy snapshot now) ?_ ?_ ?_ ?_
        · rcases rollbackTerminal_cases job with h | h <;> rw [h] <;> rfl
        · intro now'
          refine (RolledBack.sound hRjob.sound snapshot now).staged
            (by simp [Stage.afterHandoff]) ?_ _ now'
          rcases rollbackTerminal_cases job with h | h <;> rw [h] <;> simp
        · intro now' c' z _ hp
          refine ⟨rfl, hp.registered,
            Ended.of_last hp.did.saves (.inr (.inl ⟨snapshot, ?_, ?_, ?_⟩))⟩
          · exact (RolledBack.snapshot job snapshot now).trans hsnapshot
          · simpa [hp.did.rollbacks] using hrollbacks
          · rcases rollbackTerminal_cases job with h | h
            · exact .inl h
            · exact .inr (.inl h)
        · intro _ _ _ _ _ _ hne
          exact absurd hguard hne
      · intro e x y hx _ hy _
        obtain ⟨hAy, hguard, hrollbacks⟩ := hran false hx hy
        exact ⟨hAy, hRjob.sound, fun _ => hguard, .inl ⟨snapshot, hsnapshot, hrollbacks⟩⟩
  · intro e s' t hs _ hne ht _
    have hrefused : Unrestored τ id mode s l.job (s'.record (.refused τ id)) := by
      refine ⟨(hA.rely hs).frame rfl rfl rfl (fun h => h) rfl, hsound, ?_, ?_⟩
      · intro hl
        exact absurd ((hs.worker id mode hA.base.registered).2.2 hl) hne
      · refine .inr (.inl ⟨?_, .inl ⟨id, by simp [World.record]⟩⟩)
        rw [((Did.of_rely hs).trans (Did.refused s' id)).rollbacks, hnone]
        rfl
    exact hrefused.rely ht

/-- **The rollback worker ends well**, and does not raise where the lifecycle guard was
held when it was started. -/
theorem wps_rollbackWorker (hB : Base τ id mode s) (hnone : rollbacksOf τ s.history = [])
    (hcalm : Calm τ s.history ∨
      ∃ r, s.jobs.get? id = some r ∧ r.snapshot.isSome = true ∧ r.status ≠ .succeeded)
    (hQ : ∀ l' t, Inv t → Done τ id mode t → Q () l' t)
    (hE : ∀ e l' t, Inv t → s.lifecycle ≠ some id → Done τ id mode t → E e l' t) :
    wps τ Q E (Service.rollbackWorker id) l s := by
  refine wps_act_bind fun s' hs hI => owes_loadJob hI fun _ => ?_
  have hB' := hB.rely hs
  obtain ⟨r, hrec⟩ := hB'.record
  rw [hrec]
  refine wps_setJob_bind ?_
  have hA : At τ id mode r s' :=
    ⟨hB', hI.ids id r hrec, ⟨r, hrec, Agrees.refl r⟩, hI.backed id r hrec⟩
  have hnone' : rollbacksOf τ s'.history = [] := by simp [(Did.of_rely hs).rollbacks, hnone]
  have hcalm' : r.snapshot = none → Calm τ s'.history := by
    intro hsnapshot
    rcases hcalm with hcalm | ⟨r0, hr0, hsome, hne⟩
    · exact hcalm.rely hs
    · obtain ⟨r', hr', ht⟩ := (hs.worker id mode hB.registered).2.1 r0 hr0
      rw [hrec] at hr'
      cases hr'
      have hsame : r.snapshot = r0.snapshot := (congrArg Job.snapshot (ht.core hne) :)
      rw [hsnapshot] at hsame
      rw [← hsame] at hsome
      cases hsome
  have hheld : s.lifecycle = some id → s'.lifecycle = some id :=
    (hs.worker id mode hB.registered).2.2
  refine wpr_andFinally (wpr_orElse ?_)
  refine wpr_mono (wps_rollbackBody hA (hI.valid id r hrec).sound hnone' hcalm') ?_ ?_
  · intro _ l' t hIt ht
    obtain ⟨hpublished, hD⟩ := ht t (Rely.refl τ t) hIt
    refine wps_releaseUnlessPublished hD (fun u hIu hDu => hQ _ u hIu hDu) ?_
    intro _ _ _ hun _
    rw [hpublished] at hun
    cases hun
  · intro e l' t hIt ht
    refine wps_rollbackFailed (ht t (Rely.refl τ t) hIt) ?_ ?_
    · intro l'' u hIu hpublished hD
      refine wps_releaseUnlessPublished hD (fun v hIv hDv => hQ _ v hIv hDv) ?_
      intro _ _ _ hun _
      rw [hpublished] at hun
      cases hun
    · intro e' l'' u hIu hne hD
      have hne' : s.lifecycle ≠ some id := fun hl => hne (hheld hl)
      exact wps_releaseUnlessPublished hD (fun v hIv hDv => hE _ _ v hIv hne' hDv)
        fun _ v hIv _ hDv => hE _ _ v hIv hne' hDv

end Body

end AgenticKibana.Updater
