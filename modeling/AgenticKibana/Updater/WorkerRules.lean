import AgenticKibana.Updater.Actions

/-!
# Rules for the worker's routines

What a worker knows of its record (`Base`, `At`, `InSync`), and one rule for each routine
of the source that the worker is made of: locked sections, `_save_worker_job`,
`_save_stage` and the host calls.
-/

namespace AgenticKibana.Updater

open AgenticKibana.Library Threads List

variable {L α β : Type} {τ : Nat} {id : JobId} {mode : Bool}

abbrev wps (τ : Nat) (Q : α → L → World → Prop) (E : Failure → L → World → Prop)
    (m : Service L α) (l : L) (s : World) : Prop :=
  updater.wpr contract τ Q E m l s

/-! ### Single actions -/

section Single

variable {Q : α → L → World → Prop} {E : Failure → L → World → Prop} {l : L} {s : World}

theorem wps_act_bind {a : Act} {f : a.Reply → Service L α}
    (h : ∀ s', Rely τ s s' → Inv s' →
      updater.Owes contract τ a s' fun r t => Inv t → wps τ Q E (f r) l t) :
    wps τ Q E (Service.act a >>= f) l s := by
  refine wpr_bind (wpr_perform fun s' hs hI => ?_)
  obtain ⟨hbefore, hnext⟩ := h s' hs hI
  refine ⟨hbefore, ?_⟩
  intro fresh answer t r new hfresh hp
  obtain ⟨hinv, hrely, hnew, hrest⟩ := hnext fresh answer t r new hfresh hp
  refine ⟨hinv, hrely, hnew, ?_⟩
  intro t' ht' _ _
  exact wp_stable (hrest hinv hinv) ht'

theorem wps_act {a : Act} {Q : a.Reply → L → World → Prop}
    (h : ∀ s', Rely τ s s' → Inv s' →
      updater.Owes contract τ a s' fun r t => ∀ t', Rely τ t t' → Inv t' → Q r l t') :
    wps τ Q E (Service.act a) l s :=
  wpr_perform h

theorem wps_pure {a : α} (h : ∀ s', Rely τ s s' → Inv s' → Q a l s') :
    wps τ Q E (pure a) l s :=
  wpr_pure h

theorem wps_raise {e : Failure} (h : ∀ s', Rely τ s s' → Inv s' → E e l s') :
    wps τ Q E (Routine.raise e) l s :=
  wpr_raise h

variable {m : Service L α}

theorem wps_bind {Q : β → L → World → Prop} {f : α → Service L β}
    (h : wps τ (fun a l s => wps τ Q E (f a) l s) E m l s) : wps τ Q E (m >>= f) l s :=
  wpr_bind h

theorem wps_inv (h : Inv s → wps τ Q E m l s) : wps τ Q E m l s :=
  fun hI => h hI hI

theorem wps_stable {t : World} (h : wps τ Q E m l s) (hs : Inv s) (hr : Rely τ s t) :
    wps τ Q E m l t :=
  fun _ => wp_stable (h hs) hr

end Single

variable {s t u : World} {E : Failure → L → World → Prop} {Q : α → L → World → Prop} {l : L}
  {h : List Entry} {a : List Job} {b : List (Snapshot × Bool)} {f : List HostCall} {r : Job}

theorem wps_getJob_bind {Q : α → Local → World → Prop} {E : Failure → Local → World → Prop}
    {l : Local} {f : Job → Service Local α} (h : wps τ Q E (f l.job) l s) :
    wps τ Q E (Service.getJob >>= f) l s := by
  refine wps_inv fun hI => wps_bind (wps_bind (wpr_get fun _ hs _ => wps_pure fun t ht _ => ?_))
  exact wps_stable h hI (Rely.trans _ _ _ _ hs ht)

theorem wps_modify_bind {g : L → L} {f : Unit → Service L α} (h : wps τ Q E (f ()) (g l) s) :
    wps τ Q E (Routine.modify g >>= f) l s := by
  refine wps_inv fun hI => wps_bind (wpr_modify fun _ hs _ => ?_)
  exact wps_stable h hI hs

theorem wps_modifyJob_bind {Q : α → Local → World → Prop} {E : Failure → Local → World → Prop}
    {l : Local} {g : Job → Job} {f : Unit → Service Local α}
    (h : wps τ Q E (f ()) { l with job := g l.job } s) :
    wps τ Q E (Service.modifyJob g >>= f) l s :=
  wps_modify_bind h

variable {job : Job}

theorem wps_setJob_bind {Q : α → Local → World → Prop} {E : Failure → Local → World → Prop}
    {l : Local} {f : Unit → Service Local α} (h : wps τ Q E (f ()) { l with job := job } s) :
    wps τ Q E (Service.setJob job >>= f) l s :=
  wps_modify_bind h

theorem wps_now_bind {f : Time → Service L α} (h : ∀ now, wps τ Q E (f now) l s) :
    wps τ Q E (Service.nowIso >>= f) l s :=
  wps_inv fun hI => wps_act_bind fun _ hs hI' => owes_now hI' fun now _ =>
    wps_stable (h now) hI hs

section Host

variable {Q : α → L → World → Prop} {E : Failure → L → World → Prop} {l : L} {s : World}

theorem wps_host (call : HostCall) {Q : call.Value → L → World → Prop}
    (hswitch : ∀ s', Rely τ s s' → Inv s' → call.switches = true → SwitchReady s' id)
    (hok : ∀ v s' t, Rely τ s s' → Inv s' → Rely τ (s'.record (.host τ id call true)) t → Inv t →
      Q v l t)
    (herr : ∀ e s' t, Rely τ s s' → Inv s' → Rely τ (s'.record (.host τ id call false)) t →
      Inv t → E e l t) :
    wps τ Q E (Service.host id call) l s := by
  refine wps_act_bind fun s' hs hI => owes_host hI (hswitch s' hs hI) ?_ ?_
  · intro v _
    exact wps_pure fun t ht hIt => hok v s' t hs hI ht hIt
  · intro e _
    exact wps_raise fun t ht hIt => herr e s' t hs hI ht hIt

structure Guarded (id : JobId) (s t : World) : Prop where
  jobs : t.jobs = s.jobs
  index : t.index = s.index
  workers : t.workers = s.workers
  lock : t.lock = s.lock
  reserving : t.reserving = s.reserving
  history : t.history = s.history
  up : t.up = s.up
  held : t.lifecycle = some id

theorem wps_beginLifecycle {Q : Unit → L → World → Prop}
    (hrecord : ∀ s', Rely τ s s' → Inv s' → (∃ r, s'.jobs.get? id = some r) ∧
      (s'.reserving ≠ some id ∨ s'.lock = some τ))
    (hok : ∀ s' t u, Rely τ s s' → Inv s' → Guarded id s' t → Inv t → Rely τ t u → Inv u →
      Q () l u)
    (herr : ∀ e s' t, Rely τ s s' → Inv s' → s'.lifecycle ≠ some id →
      Rely τ (s'.record (.refused τ id)) t → Inv t → E e l t) :
    wps τ Q E (Service.beginLifecycle id) l s := by
  refine wps_act_bind fun s' hs hI => ?_
  obtain ⟨hrec, hfree⟩ := hrecord s' hs hI
  refine owes_beginLifecycle hI hrec hfree ?_ ?_
  · intro t hjobs hindex hworkers hlock hres hh hup hheld hIt
    exact wps_pure fun u hu hIu =>
      hok s' t u hs hI ⟨hjobs, hindex, hworkers, hlock, hres, hh, hup, hheld⟩ hIt hu hIu
  · intro e hne _
    exact wps_raise fun t ht hIt => herr e s' t hs hI hne ht hIt

end Host

/-! ### Locked sections -/

def unlocked (s : World) : World := { s with lock := none, reserving := none }

/-- An assertion that the other threads and giving the lock back leave alone. -/
structure Stable (τ : Nat) (P : World → Prop) : Prop where
  rely : ∀ {s t}, P s → Rely τ s t → Inv t → P t
  unlock : ∀ {s}, P s → P (unlocked s)

theorem Stable.and {P P' : World → Prop} (h : Stable τ P) (h' : Stable τ P') :
    Stable τ fun s => P s ∧ P' s where
  rely := fun hP hr hI => ⟨h.rely hP.1 hr hI, h'.rely hP.2 hr hI⟩
  unlock := fun hP => ⟨h.unlock hP.1, h'.unlock hP.2⟩

theorem Stable.const (p : Prop) : Stable τ fun _ => p where
  rely := fun hp _ _ => hp
  unlock := fun hp => hp

theorem Stable.imp {p : Prop} {P : World → Prop} (h : Stable τ P) : Stable τ fun s => p → P s where
  rely := fun hP hr hI hp => h.rely (hP hp) hr hI
  unlock := fun hP hp => h.unlock (hP hp)

theorem Stable.exists {ι : Type} {P : ι → World → Prop} (h : ∀ i, Stable τ (P i)) :
    Stable τ fun s => ∃ i, P i s where
  rely := fun ⟨i, hP⟩ hr hI => ⟨i, (h i).rely hP hr hI⟩
  unlock := fun ⟨i, hP⟩ => ⟨i, (h i).unlock hP⟩

def Holds (τ : Nat) (s : World) : Prop := s.lock = some τ ∧ Indexed s

theorem Holds.rely (h : Holds τ s) (hr : Rely τ s t) : Holds τ t := by
  obtain ⟨hl, hjobs, hindex, -⟩ := hr.lock h.1
  refine ⟨hl, ?_⟩
  intro id r key b hrec hb
  rw [hjobs] at hrec
  rw [hindex]
  exact h.2 id r key b hrec hb

variable {P : α → L → World → Prop} {R : Failure → L → World → Prop} {m : Service L α}

/-- **The rule of locked sections**: the section starts with the lock and a complete
index, and has to end with both. -/
theorem wps_section (hup : s.up = true)
    (hQ : ∀ a l s t, P a l s → Rely τ (unlocked s) t → Inv t → Q a l t)
    (hE : ∀ e l s t, R e l s → Rely τ (unlocked s) t → Inv t → E e l t)
    (h : ∀ s', Rely τ s s' → Inv s' → s'.lock = none → s'.reserving = none → Indexed s' →
      wps τ (fun a l t => Holds τ t ∧ P a l t) (fun e l t => Holds τ t ∧ R e l t) m l
        { s' with lock := some τ }) : wps τ Q E (Service.locked m) l s := by
  refine wps_act_bind fun s' hs hI => owes_lock hI fun hnone _ => ?_
  have hm := h s' hs hI hnone (hI.unreserved hnone) (hI.indexed (hs.up hup) hnone)
  refine wpr_andFinally (wpr_mono hm ?_ ?_)
  · intro a l t _ ht
    refine wps_act (a := .unlock) fun t' ht' hI' => ?_
    obtain ⟨hold, hPt⟩ := ht t' ht' hI'
    exact owes_unlock hI' hold.1 hold.2 fun u hu hIu => hQ a l t' u hPt hu hIu
  · intro e l t _ ht
    refine wps_act (a := .unlock) fun t' ht' hI' => ?_
    obtain ⟨hold, hPt⟩ := ht t' ht' hI'
    exact owes_unlock hI' hold.1 hold.2 fun u hu hIu => hE e l t' u hPt hu hIu

theorem wps_locked (hup : s.up = true) (hP : ∀ a l, Stable τ (P a l))
    (hR : ∀ e l, Stable τ (R e l)) (hQ : ∀ a l s, Inv s → P a l s → Q a l s)
    (hE : ∀ e l s, Inv s → R e l s → E e l s)
    (h : ∀ s', Rely τ s s' → Inv s' → s'.lock = none → s'.reserving = none → Indexed s' →
      wps τ (fun a l t => Holds τ t ∧ P a l t) (fun e l t => Holds τ t ∧ R e l t) m l
        { s' with lock := some τ }) : wps τ Q E (Service.locked m) l s :=
  wps_section hup
    (fun a l _ t hPt ht hI => hQ a l t hI ((hP a l).rely ((hP a l).unlock hPt) ht hI))
    (fun e l _ t hRt ht hI => hE e l t hI ((hR e l).rely ((hR e l).unlock hRt) ht hI)) h

/-! ### What a worker knows -/

structure Base (τ : Nat) (id : JobId) (mode : Bool) (s : World) : Prop where
  up : s.up = true
  registered : s.workers.get? id = some ⟨τ, mode⟩
  free : s.reserving ≠ some id
  record : ∃ r, s.jobs.get? id = some r
  live : LaunchesActive s.history → ∀ r, s.jobs.get? id = some r → r.status.active = true

structure At (τ : Nat) (id : JobId) (mode : Bool) (job : Job) (s : World) : Prop where
  base : Base τ id mode s
  jobId : job.jobId = id
  agrees : ∃ r, s.jobs.get? id = some r ∧ Agrees job r
  backed : Backed s.history id job

def InSync (id : JobId) (job : Job) (s : World) : Prop :=
  ∃ r, s.jobs.get? id = some r ∧ r.core = job.core ∧ r.status ≠ .succeeded

theorem ne_succeeded_of_active {status : Status} (h : status.active = true) :
    status ≠ .succeeded := by
  rintro rfl
  cases h

theorem Base.rely (h : Base τ id mode s) (hr : Rely τ s t) : Base τ id mode t := by
  obtain ⟨extra, hh, -⟩ := hr.history
  obtain ⟨r, hrec⟩ := h.record
  obtain ⟨hreg, htouch, -⟩ := hr.worker id mode h.registered
  obtain ⟨r', hrec', ht⟩ := htouch r hrec
  have hlive : LaunchesActive t.history → r.status.active = true := by
    intro hl
    rw [hh] at hl
    exact h.live hl.of_append r hrec
  refine ⟨hr.up h.up, hreg, (hr.record id r hrec).2 h.free, ⟨r', hrec'⟩, ?_⟩
  intro hl r'' hr''
  rw [hrec'] at hr''
  cases hr''
  rw [ht.status (ne_succeeded_of_active (hlive hl))]
  exact hlive hl

theorem At.rely (h : At τ id mode job s) (hr : Rely τ s t) : At τ id mode job t := by
  obtain ⟨extra, hh, -⟩ := hr.history
  obtain ⟨r, hrec, hagree⟩ := h.agrees
  obtain ⟨r', hrec', ht⟩ := (hr.worker id mode h.base.registered).2.1 r hrec
  obtain ⟨⟨r'', hrec'', hg⟩, -⟩ := hr.record id r hrec
  rw [hrec'] at hrec''
  cases hrec''
  refine ⟨h.base.rely hr, h.jobId, ⟨r', hrec', hagree.touched hg ht⟩, ?_⟩
  rw [hh]
  exact h.backed.append extra

theorem InSync.rely (h : InSync id job s) (hreg : s.workers.get? id = some ⟨τ, mode⟩)
    (hr : Rely τ s t) : InSync id job t := by
  obtain ⟨r, hrec, hcore, hne⟩ := h
  obtain ⟨r', hrec', ht⟩ := (hr.worker id mode hreg).2.1 r hrec
  refine ⟨r', hrec', (ht.core hne).trans hcore, ?_⟩
  rw [ht.status hne]
  exact hne

theorem Base.frame (hB : Base τ id mode s) (hup : t.up = s.up)
    (hjobs : t.jobs = s.jobs) (hworkers : t.workers = s.workers)
    (hreserving : s.reserving ≠ some id → t.reserving ≠ some id)
    (hh : t.history = s.history ++ h) : Base τ id mode t := by
  refine ⟨hup.trans hB.up, hworkers ▸ hB.registered, hreserving hB.free, hjobs ▸ hB.record, ?_⟩
  intro hl
  rw [hh] at hl
  rw [hjobs]
  exact hB.live hl.of_append

theorem At.frame (hA : At τ id mode job s) (hup : t.up = s.up) (hjobs : t.jobs = s.jobs)
    (hworkers : t.workers = s.workers)
    (hreserving : s.reserving ≠ some id → t.reserving ≠ some id) (hh : t.history = s.history ++ h) :
    At τ id mode job t := by
  refine ⟨hA.base.frame hup hjobs hworkers hreserving hh, hA.jobId, hjobs ▸ hA.agrees, ?_⟩
  rw [hh]
  exact hA.backed.append h

theorem At.modify {job' : Job} (h : At τ id mode job s) (hid : job'.jobId = job.jobId)
    (hrelease : job'.release = job.release)
    (hkey : job'.startIdempotencyKey = job.startIdempotencyKey)
    (hswitch : job'.switchStarted = job.switchStarted)
    (hcancel : job'.cancelRequested = job.cancelRequested)
    (hkeys : job'.operationIdempotency = job.operationIdempotency)
    (hbacked : Backed s.history id job') : At τ id mode job' s := by
  obtain ⟨r, hrec, hagree⟩ := h.agrees
  refine ⟨h.base, hid.trans h.jobId, ⟨r, hrec, ?_⟩, hbacked⟩
  refine ⟨hagree.jobId.trans hid.symm, hagree.release.trans hrelease.symm,
    hagree.startKey.trans hkey.symm, hagree.switched.trans hswitch.symm, ?_, ?_⟩
  · rw [hcancel]
    exact hagree.cancelled
  · intro k v hk
    rw [hkeys] at hk
    exact hagree.keys k v hk

/-! ### The history of one thread -/

theorem savesOf_append (τ : Nat) (h h' : List Entry) :
    savesOf τ (h ++ h') = savesOf τ h ++ savesOf τ h' :=
  filterMap_append

theorem rollbacksOf_append (τ : Nat) (h h' : List Entry) :
    rollbacksOf τ (h ++ h') = rollbacksOf τ h ++ rollbacksOf τ h' :=
  filterMap_append

theorem failuresOf_append (τ : Nat) (h h' : List Entry) :
    failuresOf τ (h ++ h') = failuresOf τ h ++ failuresOf τ h' :=
  filterMap_append

theorem savesOf_eq_nil (hh : ∀ e ∈ h, e.by ≠ some τ) : savesOf τ h = [] := by
  refine filterMap_eq_nil_iff.mpr ?_
  intro e he
  have hne := hh e he
  cases e with
  | saved τ' before after =>
    have hτ : τ' ≠ τ := fun heq => hne (congrArg some heq)
    simp [hτ]
  | host τ' id call ok => rfl
  | refused τ' id => rfl
  | launched id mode record => rfl
  | accepted request record => rfl

theorem rollbacksOf_eq_nil (hh : ∀ e ∈ h, e.by ≠ some τ) :
    rollbacksOf τ h = [] := by
  refine filterMap_eq_nil_iff.mpr ?_
  intro e he
  have hne := hh e he
  cases e with
  | host τ' id call ok =>
    have hτ : τ' ≠ τ := fun heq => hne (congrArg some heq)
    cases call <;> simp [hτ]
  | saved τ' before after => rfl
  | refused τ' id => rfl
  | launched id mode record => rfl
  | accepted request record => rfl

theorem failuresOf_eq_nil (hh : ∀ e ∈ h, e.by ≠ some τ) :
    failuresOf τ h = [] := by
  refine filterMap_eq_nil_iff.mpr ?_
  intro e he
  have hne := hh e he
  cases e with
  | host τ' id call ok =>
    have hτ : τ' ≠ τ := fun heq => hne (congrArg some heq)
    cases ok <;> simp [hτ]
  | saved τ' before after => rfl
  | refused τ' id => rfl
  | launched id mode record => rfl
  | accepted request record => rfl

/-- What thread `τ` did between `s` and `t`: the records it wrote, the rollbacks it ran, the
host calls that failed. -/
structure Did (τ : Nat) (saves : List Job) (rollbacks : List (Snapshot × Bool))
    (failures : List HostCall) (s t : World) : Prop where
  saves : savesOf τ t.history = savesOf τ s.history ++ saves
  rollbacks : rollbacksOf τ t.history = rollbacksOf τ s.history ++ rollbacks
  failures : failuresOf τ t.history = failuresOf τ s.history ++ failures
  history : ∃ h, t.history = s.history ++ h

theorem Did.trans {a' : List Job} {b' : List (Snapshot × Bool)} {f' : List HostCall}
    (h : Did τ a b f s t) (h' : Did τ a' b' f' t u) :
    Did τ (a ++ a') (b ++ b') (f ++ f') s u := by
  obtain ⟨x, hx⟩ := h.history
  obtain ⟨y, hy⟩ := h'.history
  exact ⟨by rw [h'.saves, h.saves, append_assoc],
    by rw [h'.rollbacks, h.rollbacks, append_assoc],
    by rw [h'.failures, h.failures, append_assoc], x ++ y, by rw [hy, hx, append_assoc]⟩

theorem Did.of_rely (hr : Rely τ s t) : Did τ [] [] [] s t := by
  obtain ⟨extra, hh, hby⟩ := hr.history
  refine ⟨?_, ?_, ?_, extra, hh⟩
  · rw [hh, savesOf_append, savesOf_eq_nil hby]
  · rw [hh, rollbacksOf_append, rollbacksOf_eq_nil hby]
  · rw [hh, failuresOf_append, failuresOf_eq_nil hby]

theorem Did.rely (h : Did τ a b f s t) (hr : Rely τ t u) : Did τ a b f s u := by
  simpa using h.trans (Did.of_rely hr)

theorem Did.of_history (h : t.history = s.history) : Did τ [] [] [] s t :=
  ⟨by rw [h]; simp, by rw [h]; simp, by rw [h]; simp, [], by rw [h]; simp⟩

theorem Did.saveJob (s : World) (job : Job) : Did τ [job] [] [] s (s.saveJob τ job) := by
  refine ⟨?_, ?_, ?_, _, rfl⟩
  · simp [World.saveJob, savesOf]
  · simp [World.saveJob, rollbacksOf]
  · simp [World.saveJob, failuresOf]

theorem Did.host (s : World) (id : JobId) {call : HostCall} (ok : Bool)
    (hcall : ∀ snapshot backup restore, call ≠ .rollback snapshot backup restore) :
    Did τ [] [] (if ok then [] else [call]) s (s.record (.host τ id call ok)) := by
  refine ⟨?_, ?_, ?_, _, rfl⟩
  · simp [World.record, savesOf]
  · cases call with
    | rollback snapshot backup restore => exact absurd rfl (hcall snapshot backup restore)
    | _ => simp [World.record, rollbacksOf]
  · cases ok <;> simp [World.record, failuresOf]

theorem Did.rollback (s : World) (id : JobId) (snapshot : Snapshot) (backup : Option Backup)
    (restore ok : Bool) : Did τ [] [(snapshot, restore)]
      (if ok then [] else [.rollback snapshot backup restore]) s
      (s.record (.host τ id (.rollback snapshot backup restore) ok)) := by
  refine ⟨?_, ?_, ?_, _, rfl⟩
  · simp [World.record, savesOf]
  · simp [World.record, rollbacksOf]
  · cases ok <;> simp [World.record, failuresOf]

theorem Did.refused (s : World) (id : JobId) : Did τ [] [] [] s (s.record (.refused τ id)) := by
  refine ⟨?_, ?_, ?_, _, rfl⟩
  · simp [World.record, savesOf]
  · simp [World.record, rollbacksOf]
  · simp [World.record, failuresOf]

theorem Did.of_locked
    {s' : World} (hs : Rely τ s s') (h : Did τ a b f { s' with lock := some τ } t) :
    Did τ a b f s t := by
  have hlock : Did τ [] [] [] s' { s' with lock := some τ } := Did.of_history rfl
  simpa using (Did.of_rely hs).trans (hlock.trans h)

/-! ### Writing the worker's copy -/

def Job.written (job : Job) (cancelled : Bool) : Job :=
  { job with cancelRequested := cancelled }

theorem Sound.written (h : Sound job) (cancelled : Bool) : Sound (job.written cancelled) :=
  Sound.of_core (a := job) rfl h

theorem replaces_merged (hI : Inv s) (hA : At τ id mode job s) (hrec : s.jobs.get? id = some r)
    (hsound : Sound job) : Replaces s (Service.Merged job (some r)) := by
  obtain ⟨r', hrec', hagree⟩ := hA.agrees
  rw [hrec] at hrec'
  cases hrec'
  have hid : id = (Service.Merged job (some r)).jobId := hA.jobId.symm
  refine replaces_revised hI (hid ▸ hrec) hagree.merged.1 (valid_merged hagree (hI.valid id r hrec)
    hsound) ?_ (fun key b hb => .inl (hagree.keys key b hb)) ?_
  · rw [← hid]
    exact ⟨hA.backed.quiesced, hA.backed.backup⟩
  · intro hl _ id' r' hr' ha'
    rw [← hid]
    exact hI.single hl id' r' id r hr' hrec ha' (hA.base.live hl r hrec)

/-- After a worker has written its copy, with an active status: copy and record are in sync. -/
structure Wrote (τ : Nat) (id : JobId) (mode : Bool) (job : Job) (s t : World) : Prop where
  at_ : At τ id mode job t
  sync : InSync id job t
  did : Did τ [job] [] [] s t
  guarded : s.lifecycle = some id → t.lifecycle = some id

theorem Wrote.rely (h : Wrote τ id mode job s t) (hr : Rely τ t u) : Wrote τ id mode job s u where
  at_ := h.at_.rely hr
  sync := h.sync.rely h.at_.base.registered hr
  did := h.did.rely hr
  guarded := fun hl => (hr.worker id mode h.at_.base.registered).2.2 (h.guarded hl)

theorem stable_wrote (job : Job) (s : World) : Stable τ (Wrote τ id mode job s) where
  rely := fun h hr _ => h.rely hr
  unlock := fun {t} h =>
    ⟨h.at_.frame (h := []) rfl rfl rfl (fun _ => by simp [unlocked]) (by simp [unlocked]),
      h.sync, h.did.trans (Did.of_history rfl), h.guarded⟩

structure Published (τ : Nat) (id : JobId) (mode : Bool) (job : Job) (s t : World) : Prop where
  registered : t.workers.get? id = some ⟨τ, mode⟩
  did : Did τ [job] [] [] s t

theorem Published.rely (h : Published τ id mode job s t) (hr : Rely τ t u) :
    Published τ id mode job s u :=
  ⟨(hr.worker id mode h.registered).1, h.did.rely hr⟩

theorem stable_published (job : Job) (s : World) : Stable τ (Published τ id mode job s) where
  rely := fun h hr _ => h.rely hr
  unlock := fun h => ⟨h.registered, h.did.trans (Did.of_history rfl)⟩

theorem wrote_saveJob (hA : At τ id mode job s) (hrec : s.jobs.get? id = some r)
    (hactive : job.status.active = true) : Wrote τ id mode (Service.Merged job (some r)) s
      (s.saveJob τ (Service.Merged job (some r))) := by
  obtain ⟨r', hrec', hagree⟩ := hA.agrees
  rw [hrec] at hrec'
  cases hrec'
  have hnow : (s.saveJob τ (Service.Merged job (some r))).jobs.get? id =
      some (Service.Merged job (some r)) := by
    rw [get?_saveJob, if_pos (show id = (Service.Merged job (some r)).jobId from hA.jobId.symm)]
  refine ⟨⟨⟨hA.base.up, hA.base.registered, hA.base.free, ⟨_, hnow⟩, ?_⟩, hA.jobId,
    ⟨_, hnow, Agrees.refl _⟩, ?_⟩, ⟨_, hnow, rfl, ne_succeeded_of_active hactive⟩,
    Did.saveJob s _, fun hl => hl⟩
  · intro _ r' hr'
    rw [hnow] at hr'
    cases hr'
    exact hactive
  · exact ⟨(hA.backed.append _).quiesced, (hA.backed.append _).backup⟩

theorem published_saveJob (hA : At τ id mode job s) :
    Published τ id mode (Service.Merged job (some r)) s
      (s.saveJob τ (Service.Merged job (some r))) :=
  ⟨hA.base.registered, Did.saveJob s _⟩

theorem Holds.saveJob (h : Holds τ s) (hrec : s.jobs.get? job.jobId = some r)
    (hkeys : KeysWithin job r) : Holds τ (s.saveJob τ job) := by
  refine ⟨h.1, ?_⟩
  intro id' r' key b hr' hb
  rw [get?_saveJob] at hr'
  split at hr'
  · rename_i hid
    cases hr'
    exact h.2 _ r key b hrec (hkeys key b hb)
  · exact h.2 id' r' key b hr' hb

section Writes

variable {Q : Unit → Local → World → Prop} {E : Failure → Local → World → Prop} {l : Local}
  {s : World}

theorem wps_mergeAndSave (hA : At τ id mode l.job s) (hold : Holds τ s) (hsound : Sound l.job)
    (hQ : ∀ s' r t, Rely τ s s' → At τ id mode l.job s' → s'.jobs.get? id = some r →
      Rely τ (s'.saveJob τ (Service.Merged l.job (some r))) t → Inv t → Holds τ t →
      Q () { l with job := Service.Merged l.job (some r) } t) :
    wps τ Q E Service.mergeAndSave l s := by
  refine wps_getJob_bind ?_
  refine wps_act_bind fun s' hs hI => owes_loadJob hI fun _ => ?_
  have hA' := hA.rely hs
  have hold' := hold.rely hs
  obtain ⟨r, hrec, hagree⟩ := hA'.agrees
  rw [hA'.jobId, hrec]
  refine wps_setJob_bind ?_
  refine wps_act (a := .saveJob _) fun u hu hIu => ?_
  have hAu := hA'.rely hu
  have holdu := hold'.rely hu
  have hrecu : u.jobs.get? id = some r := by
    rw [(hu.lock hold'.1).2.1]
    exact hrec
  have hid : (Service.Merged l.job (some r)).jobId = id := hA.jobId
  refine owes_saveJob hIu holdu.1 (replaces_merged hIu hAu hrecu hsound) ?_ ?_
  · -- No other thread is the worker of this record.
    intro τ' mode' r' hne hw
    rw [hid, hAu.base.registered] at hw
    cases hw
    exact absurd rfl hne
  · intro t ht hIt
    have hkeys : KeysWithin (Service.Merged l.job (some r)) r := hagree.keys
    exact hQ u r t (Rely.trans _ _ _ _ hs hu) hAu hrecu ht hIt
      ((holdu.saveJob (hid.symm ▸ hrecu) hkeys).rely ht)

theorem wps_saveWorkerJob (hA : At τ id mode l.job s) (hactive : l.job.status.active = true)
    (hsound : Sound l.job)
    (hQ : ∀ c t, Inv t → Wrote τ id mode (l.job.written c) s t →
      Q () { l with job := (l.job.written c) } t) :
    wps τ Q E Service.saveWorkerJob l s := by
  refine wps_locked (P := fun _ l' t => ∃ c, l' = { l with job := (l.job.written c) } ∧
      Wrote τ id mode (l.job.written c) s t) (R := fun _ _ _ => False)
    hA.base.up (fun _ l' => Stable.exists fun c => (Stable.const _).and (stable_wrote _ _))
    (fun _ _ => Stable.const False) ?_ (fun _ _ _ _ hf => hf.elim) ?_
  · rintro ⟨⟩ l' t hI ⟨c, rfl, hw⟩
    exact hQ c t hI hw
  · intro s' hs hI hnone hres hindexed
    have hA' : At τ id mode l.job { s' with lock := some τ } :=
      (hA.rely hs).frame (h := []) rfl rfl rfl (fun h => h) (by simp)
    refine wps_mergeAndSave hA' ⟨rfl, hindexed⟩ hsound ?_
    intro u r t hu hAu hrec ht hIt hold
    have hw := (wrote_saveJob hAu hrec hactive).rely ht
    refine ⟨hold, _, rfl, hw.at_, hw.sync, ?_, ?_⟩
    · have hdid := Did.of_locked hs ((Did.of_rely hu).trans hw.did)
      simp only [nil_append] at hdid
      exact hdid
    · intro hl
      have hl' : s'.lifecycle = some id := (hs.worker id mode hA.base.registered).2.2 hl
      exact hw.guarded ((hu.worker id mode hA'.base.registered).2.2 hl')

variable {stage : Stage} {message : String} {status : Status}

theorem wps_saveStage (hA : At τ id mode l.job s) (hactive : status.active = true)
    (hsound : ∀ now, Sound (Service.Staged l.job stage message status now))
    (hQ : ∀ now c t, Inv t →
      Wrote τ id mode ((Service.Staged l.job stage message status now).written c) s t →
      Q () { l with job :=
        (Service.Staged l.job stage message status now).written c } t) :
    wps τ Q E (Service.saveStage stage message status) l s := by
  refine wps_now_bind fun now => wps_modifyJob_bind ?_
  have hterminal : status.terminal = false := by
    cases status <;> first | rfl | cases hactive
  rw [if_neg (by simp [hterminal])]
  have hA0 : At τ id mode (Service.Staged l.job stage message status now) s :=
    hA.modify rfl rfl rfl rfl rfl rfl ⟨hA.backed.quiesced, hA.backed.backup⟩
  exact wps_saveWorkerJob hA0 hactive (hsound now) (hQ now)

theorem wps_publish (hA : At τ id mode l.job s) (hterminal : status.terminal = true)
    (hsound : ∀ now, Sound (Service.Staged l.job stage message status now))
    (hQ : ∀ now c t, Inv t → Published τ id mode
        ((Service.Staged l.job stage message status now).written c) s t →
      Q () ⟨((Service.Staged l.job stage message status now).written c), true⟩ t)
    (hE : ∀ now c e t, Inv t → Published τ id mode
        ((Service.Staged l.job stage message status now).written c) s t →
      s.lifecycle ≠ some id → E e { l with job :=
        (Service.Staged l.job stage message status now).written c } t) :
    wps τ Q E (Service.saveStage stage message status) l s := by
  refine wps_now_bind fun now => wps_modifyJob_bind ?_
  rw [if_pos hterminal]
  have hA0 : At τ id mode (Service.Staged l.job stage message status now) s :=
    hA.modify rfl rfl rfl rfl rfl rfl ⟨hA.backed.quiesced, hA.backed.backup⟩
  refine wps_locked
    (P := fun _ l' t => ∃ c, l' = ⟨((Service.Staged l.job stage message status
      now).written c), true⟩ ∧
      Published τ id mode ((Service.Staged l.job stage message status now).written c) s t)
    (R := fun _ l' t => ∃ c, (l' = { l with job :=
      ((Service.Staged l.job stage message status now).written c) } ∧ s.lifecycle ≠ some id) ∧
      Published τ id mode ((Service.Staged l.job stage message status now).written c) s t)
    hA.base.up (fun _ l' => Stable.exists fun c => (Stable.const _).and (stable_published _ _))
    (fun _ l' => Stable.exists fun c => (Stable.const _).and (stable_published _ _)) ?_ ?_ ?_
  · rintro ⟨⟩ l' t hI ⟨c, rfl, hp⟩
    exact hQ now c t hI hp
  · rintro e l' t hI ⟨c, ⟨rfl, hne⟩, hp⟩
    exact hE now c e t hI hp hne
  · intro s' hs hI hnone hres hindexed
    have hA' : At τ id mode (Service.Staged l.job stage message status now)
        { s' with lock := some τ } :=
      (hA0.rely hs).frame (h := []) rfl rfl rfl (fun h => h) (by simp)
    refine wps_bind (wps_mergeAndSave hA' ⟨rfl, hindexed⟩ (hsound now) ?_)
    intro u r t hu hAu hrec ht hIt hold
    have hpub := (published_saveJob (r := r) hAu).rely ht
    have hdid : Did τ [Service.Merged (Service.Staged l.job stage message status now) (some r)]
        [] [] s t :=
      Did.of_locked hs (by simpa using (Did.of_rely hu).trans hpub.did)
    have hguard : s.lifecycle = some id → t.lifecycle = some id := by
      intro hl
      have hl' : s'.lifecycle = some id := (hs.worker id mode hA.base.registered).2.2 hl
      have hlu : u.lifecycle = some id := (hu.worker id mode hA'.base.registered).2.2 hl'
      exact (ht.worker id mode (by exact hAu.base.registered)).2.2 hlu
    refine wps_getJob_bind ?_
    have hid : (Service.Merged (Service.Staged l.job stage message status now)
      (some r)).jobId = id :=
      hA.jobId
    rw [hid]
    refine wps_bind (wps_act_bind fun v hv hIv => ?_)
    have hpubv : Published τ id mode _ s v := ⟨(hpub.rely hv).registered, hdid.rely hv⟩
    have holdv := hold.rely hv
    refine owes_releaseLifecycle hIv (.inl ⟨mode, hpubv.registered⟩) ?_ ?_
    · intro w hjobs hindex hworkers hlock _ hhistory hIw
      have hpubw : Published τ id mode _ s w :=
        ⟨hworkers ▸ hpubv.registered, by simpa using hpubv.did.trans (Did.of_history hhistory)⟩
      have holdw : Holds τ w := by
        refine ⟨hlock.trans holdv.1, ?_⟩
        intro id' r' key b hr' hb
        rw [hjobs] at hr'
        rw [hindex]
        exact holdv.2 id' r' key b hr' hb
      refine wps_pure fun x hx hIx => wpr_modify fun y hy hIy => ?_
      exact ⟨(holdw.rely hx).rely hy, _, rfl, (hpubw.rely hx).rely hy⟩
    · intro e hne _
      refine wps_raise fun x hx hIx => ?_
      refine ⟨holdv.rely hx, _, ⟨rfl, ?_⟩, hpubv.rely hx⟩
      intro hl
      refine hne ((hv.worker id mode ?_).2.2 (hguard hl))
      exact hpub.registered

end Writes

end AgenticKibana.Updater
