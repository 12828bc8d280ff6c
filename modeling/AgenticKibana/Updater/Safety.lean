import AgenticKibana.Updater.Start

/-!
# The supervisor is safe in every interleaving

Each thread meets the contract on its own.  What remains is what happens outside the threads,
above all `resume`, which rebuilds the index from the records and launches the active jobs.  Then
`verified_of_reaches` says that the invariant holds in every state of every run.
-/

namespace AgenticKibana.Updater

open AgenticKibana.Library Threads List

variable {τ : Nat} {id : JobId} {mode : Bool} {s t : World} {n : Nat} {index : Index}
  {names : List Name}

theorem Below.mono {m : Nat} (h : Below n s) (hn : n ≤ m) : Below m s where
  history := fun e he τ hτ => Nat.lt_of_lt_of_le (h.history e he τ hτ) hn
  workers := fun id w hw => Nat.lt_of_lt_of_le (h.workers id w hw) hn

theorem Below.of_eq (h : Below n s) (hh : t.history = s.history)
    (hw : t.workers = s.workers) : Below n t where
  history := by
    rw [hh]
    exact h.history
  workers := by
    rw [hw]
    exact h.workers

theorem Below.append {e : Entry} (h : Below n s) (hh : t.history = s.history ++ [e])
    (hw : t.workers = s.workers) (he : ∀ τ, e.by = some τ → τ < n) : Below n t where
  history := by
    intro e' he' τ hτ
    rw [hh] at he'
    rcases mem_append.mp he' with he' | he'
    · exact h.history e' he' τ hτ
    · cases mem_singleton.mp he'
      exact he τ hτ
  workers := by
    rw [hw]
    exact h.workers

theorem by_lt (hτ : τ < n) : ∀ τ', some τ = some τ' → τ' < n := by
  rintro τ' heq
  cases heq
  exact hτ

theorem Below.register (h : Below n s) (id : JobId) (mode : Bool) :
    Below (n + 1) (s.register n id mode) where
  history := by
    intro e he τ hτ
    rcases mem_append.mp he with he | he
    · exact Nat.lt_succ_of_lt (h.history e he τ hτ)
    · cases mem_singleton.mp he
      cases hτ
  workers := by
    intro id' w hw
    simp only [World.register, Dict.get?_set] at hw
    split at hw
    · cases hw
      exact Nat.lt_succ_self n
    · exact Nat.lt_succ_of_lt (h.workers id' w hw)

variable {fresh : Nat} {new : List Name} {a : Act} {answer : Answer} {r : a.Reply}

theorem below_effect (hτ : τ < fresh) (h : Below fresh s)
    (hp : effect τ fresh a answer s = some (t, r, new)) : Below (fresh + new.length) t := by
  cases a with
  | lock =>
    simp only [effect] at hp
    split at hp
    · cases hp
      exact h.of_eq rfl rfl
    · cases hp
  | saveJob job =>
    cases hp
    exact h.append rfl rfl (by_lt hτ)
  | beginLifecycle id =>
    simp only [effect] at hp
    have hsame : ∀ {t r}, s.beginLifecycle id answer.fails = (t, r) →
        t.history = s.history ∧ t.workers = s.workers := by
      intro t r heq
      unfold World.beginLifecycle at heq
      split at heq
      · split at heq <;> cases heq <;> exact ⟨rfl, rfl⟩
      · split at heq
        · cases heq; exact ⟨rfl, rfl⟩
        · split at heq <;> cases heq <;> exact ⟨rfl, rfl⟩
    split at hp
    · rename_i u heq
      cases hp
      exact h.of_eq (hsame heq).1 (hsame heq).2
    · rename_i u e heq
      cases hp
      exact h.append (e := .refused τ id) (by rw [World.record, (hsame heq).1]) (hsame heq).2
        (by_lt hτ)
  | releaseLifecycle id terminal =>
    simp only [effect] at hp
    cases hp
    have hsame : (s.releaseLifecycle id terminal).1.history = s.history ∧
        (s.releaseLifecycle id terminal).1.workers = s.workers := by
      unfold World.releaseLifecycle
      split
      · exact ⟨rfl, rfl⟩
      · split
        · exact ⟨rfl, rfl⟩
        · split
          · split
            · exact ⟨rfl, rfl⟩
            · split <;> exact ⟨rfl, rfl⟩
          · exact ⟨rfl, rfl⟩
    exact h.of_eq hsame.1 hsame.2
  | host id call =>
    cases hp
    exact h.append rfl rfl (by_lt hτ)
  | launch id mode =>
    simp only [effect] at hp
    split at hp
    · split at hp
      · cases hp
        exact h
      · cases hp
    · cases hp
      exact h.register id mode
  | newId =>
    simp only [effect] at hp
    split at hp
    · cases hp
    · cases hp
      exact h.of_eq rfl rfl
  | unlock | loadJob | listJobs | readIndex | saveIndex | loadPreflight | now | fault =>
    cases hp
    exact h.of_eq rfl rfl

theorem WorkerEntry.base (h : WorkerEntry τ id mode s) (hI : Inv s) : Base τ id mode s :=
  ⟨h.up, h.registered, h.free, hI.registered id _ h.registered, h.live⟩

theorem WorkerEntry.silent (h : WorkerEntry τ id mode s) : Quiet τ s.history :=
  ⟨savesOf_eq_nil h.quiet, rollbacksOf_eq_nil h.quiet, failuresOf_eq_nil h.quiet⟩

/-- **Every thread meets the contract** from what it may assume when it is started. -/
theorem wp_program (n : Name) (hI : Inv s) (h : contract.Entry τ n s) :
    updater.wp contract τ (contract.Returns τ n) (contract.Raises τ n) (program n) s := by
  cases n with
  | call request =>
    cases request with
    | start body =>
      refine wp_main hI (wpr_mono (wps_start h) ?_ fun _ _ _ _ _ => trivial)
      exact fun r _ t hIt ht => ⟨r, rfl, ht t (Rely.refl τ t) hIt⟩
    | cancel id key =>
      refine wp_main hI (wpr_mono (wps_cancel h) ?_ fun _ _ _ _ _ => trivial)
      exact fun r _ t hIt ht => ⟨r, rfl, ht t (Rely.refl τ t) hIt⟩
    | rollback id key =>
      refine wp_main hI (wpr_mono (wps_requestRollback h) ?_ fun _ _ _ _ _ => trivial)
      exact fun r _ t hIt ht => ⟨r, rfl, ht t (Rely.refl τ t) hIt⟩
  | worker id mode =>
    have hentry : WorkerEntry τ id mode s := h
    have hquiet := hentry.silent
    cases mode with
    | false =>
      show updater.wp contract τ (fun _ s => Ended τ s.history) (fun _ s => Ended τ s.history)
        (Routine.main (Service.worker id) default fun _ => none) s
      exact wp_main hI
        (wps_worker (hentry.base hI) hquiet (fun _ _ _ hended => hended)
          fun _ _ _ _ hended => hended)
    | true =>
      show updater.wp contract τ (fun _ s => Ended τ s.history) (fun _ s => Ended τ s.history)
        (Routine.main (Service.rollbackWorker id) default fun _ => none) s
      exact wp_main hI
        (wps_rollbackWorker (hentry.base hI) hquiet.unfailing.1 (.inl hquiet.calm)
          (fun _ _ _ hD => hD.ended) fun _ _ _ _ _ hD => hD.ended)

theorem retire_worker (hI : Inv s) (result : Except Failure (Option Job)) :
    Inv (retire τ (.worker id mode) result s) ∧
      ∀ τ', τ' ≠ τ → Rely τ' s (retire τ (.worker id mode) result s) := by
  simp only [retire]
  split
  · rename_i hmine
    refine ⟨?_, ?_⟩
    · refine hI.frame (h := []) rfl rfl (by simp) (by simp) (by simp) ?_ hI.guard hI.indexed
        hI.unreserved
      intro id' w hw
      rw [Dict.get?_erase] at hw
      split at hw
      · cases hw
      · exact hI.registered id' w hw
    · intro τ' hne
      refine Rely.frame (h := []) (fun hl => ⟨hl, rfl, ?_⟩) rfl rfl rfl (by simp) (by simp)
        (fun _ _ _ hres => hres) ?_
      · intro id' _ hun
        refine ⟨hun.guard, ?_⟩
        rw [Dict.get?_erase]
        split
        · rfl
        · exact hun.worker
      · intro id' mode' hw
        refine ⟨?_, fun hl => hl⟩
        rw [Dict.get?_erase]
        split
        · rename_i hid
          rw [← hid, hw] at hmine
          simp only [Option.any_some, decide_eq_true_eq] at hmine
          exact absurd hmine hne
        · exact hw
  · exact ⟨hI, fun τ' _ => Rely.refl τ' s⟩

theorem retire_call {request : Request} {r : Job} (hI : Inv s) (h : Answered s request r) :
    Inv (s.record (.accepted request r)) ∧
      ∀ τ', Rely τ' s (s.record (.accepted request r)) := by
  refine ⟨?_, ?_⟩
  · refine hI.frame rfl rfl rfl (by simp) ?_ hI.registered hI.guard hI.indexed hI.unreserved
    intro request' r' hm
    cases mem_singleton.mp hm
    exact h
  · intro τ'
    exact Rely.entry (by simp [Entry.by])

theorem below_retire {n : Name} {result : Except Failure (Option Job)} (h : Below fresh s) :
    Below fresh (retire τ n result s) := by
  unfold retire
  split
  · exact h.append rfl rfl (by simp [Entry.by])
  · exact h
  · split
    · refine ⟨h.history, ?_⟩
      intro id' w hw
      rw [Dict.get?_erase] at hw
      split at hw
      · cases hw
      · exact h.workers id' w hw
    · exact h

/-! ### `resume` -/

section Bindings

variable {β : Type} [DecidableEq β] {list : List (Key × β)} {keys keys' : Dict Key β}

theorem bindKey_some {key : Key} {value : β} (h : bindKey keys key value = some keys') :
    keys'.get? key = some value ∧ (∀ k v, keys.get? k = some v → keys'.get? k = some v) ∧
      ∀ k v, keys'.get? k = some v → keys.get? k = some v ∨ (k, v) = (key, value) := by
  unfold bindKey at h
  split at h
  · rename_i existing hexisting
    split at h
    · rename_i hsame
      cases h
      exact ⟨hsame ▸ hexisting, fun _ _ hk => hk, fun _ _ hk => .inl hk⟩
    · cases h
  · rename_i hnone
    cases h
    refine ⟨Dict.get?_set_self _ _ _, ?_, ?_⟩
    · intro k v hk
      rw [Dict.get?_set_of_ne]
      · exact hk
      · rintro rfl
        rw [hnone] at hk
        cases hk
    · intro k v hk
      rw [Dict.get?_set] at hk
      split at hk
      · rename_i hkey
        cases hk
        exact .inr (hkey ▸ rfl)
      · exact .inl hk

theorem bindAll_some (h : bindAll list keys = some keys') :
    (∀ p ∈ list, keys'.get? p.1 = some p.2) ∧
      (∀ k v, keys.get? k = some v → keys'.get? k = some v) ∧
      ∀ k v, keys'.get? k = some v → keys.get? k = some v ∨ (k, v) ∈ list := by
  induction list generalizing keys with
  | nil =>
    cases h
    exact ⟨by simp, fun _ _ hk => hk, fun _ _ hk => .inl hk⟩
  | cons p rest ih =>
    obtain ⟨mid, hmid, hrest⟩ := Option.bind_eq_some_iff.mp h
    obtain ⟨hself, hkeep, hfrom⟩ := bindKey_some hmid
    obtain ⟨hall, hkeep', hfrom'⟩ := ih hrest
    refine ⟨?_, fun k v hk => hkeep' k v (hkeep k v hk), ?_⟩
    · intro q hq
      rcases mem_cons.mp hq with rfl | hq
      · exact hkeep' _ _ hself
      · exact hall q hq
    · intro k v hk
      rcases hfrom' k v hk with hk | hk
      · rcases hfrom k v hk with hk | hk
        · exact .inl hk
        · exact .inr (hk ▸ mem_cons_self)
      · exact .inr (mem_cons_of_mem _ hk)

end Bindings

theorem repairBindings_some (hI : Inv s) (h : repairBindings s = some index) :
    Reindexes s index ∧ Complete s.jobs index := by
  simp only [repairBindings, Option.bind_eq_bind, Option.bind_eq_some_iff] at h
  obtain ⟨preflights, -, jobs, hjobs, operations, hoperations, heq⟩ := h
  cases heq
  have hcomplete : Complete s.jobs ⟨preflights, jobs, operations⟩ := by
    intro id r key b hr hb
    refine (bindAll_some hoperations).1 (key, b) ?_
    exact mem_flatMap.mpr ⟨r, mem_listJobs.mpr ⟨id, hr⟩, Dict.get?_eq_some_iff.mp hb⟩
  refine ⟨⟨?_, ?_⟩, hcomplete⟩
  · intro key id hk
    rcases (bindAll_some hjobs).2.2 key id hk with hk | hk
    · exact hI.indexJobs key id hk
    · obtain ⟨r, hr, hbinding⟩ := mem_flatMap.mp hk
      obtain ⟨id', hr'⟩ := mem_listJobs.mp hr
      unfold startBinding at hbinding
      split at hbinding
      · rename_i key' hkey'
        split at hbinding
        · cases hbinding
        · cases mem_singleton.mp hbinding
          exact ⟨r, hI.ids id' r hr' ▸ hr', hkey'⟩
      · cases hbinding
  · intro id r key b hr hb b' hb'
    have hb'' : operations.get? key = some b' := hb'
    exact Option.some.inj (hb''.symm.trans (hcomplete id r key b hr hb))

theorem Inv.reindexed (hI : Inv s) (h : Reindexes s index) (hdown : s.up = false) :
    Inv { s with index := index } :=
  hI.saveIndex h fun hup => by rw [hdown] at hup; cases hup

theorem Inv.crash (hI : Inv s) : Inv s.crash :=
  hI.frame (h := []) rfl rfl (by simp [World.crash]) (by simp) (by simp)
    (fun id w hw => by cases hw) (fun id hl => by cases hl) (fun hup => by cases hup) fun _ => rfl

/-- What the launches of `resume` leave: each active job of the list has a worker, whose
number is its place among the threads that were started. -/
structure Launched (fresh : Nat) (list : List Job) (s t : World) (names : List Name) : Prop where
  jobs : t.jobs = s.jobs
  index : t.index = s.index
  lock : t.lock = s.lock
  up : t.up = s.up
  lifecycle : t.lifecycle = s.lifecycle
  marker : t.marker = s.marker
  reserving : t.reserving = s.reserving
  history : ∃ h, t.history = s.history ++ h ∧ ∀ e ∈ h, ∃ r ∈ list, r.status.active = true ∧
    e = .launched r.jobId (decide (r.status = .rollingBack)) (s.jobs.get? r.jobId)
  others : ∀ id, (∀ r ∈ list, r.jobId ≠ id) → t.workers.get? id = s.workers.get? id
  workers : ∀ id w, t.workers.get? id = some w → s.workers.get? id = some w ∨
    w.thread < fresh + names.length ∧ ∃ r ∈ list, r.jobId = id
  started : ∀ (i : Nat) (n : Name), names[i]? = some n → ∃ r ∈ list, r.status.active = true ∧
    n = .worker r.jobId (decide (r.status = .rollingBack)) ∧
    t.workers.get? r.jobId = some ⟨fresh + i, decide (r.status = .rollingBack)⟩

theorem launched_launchActive {list : List Job} (h : launchActive fresh list s = (t, names))
    (hnd : (list.map Job.jobId).Nodup) : Launched fresh list s t names := by
  induction list generalizing fresh s t names with
  | nil =>
    cases h
    exact ⟨rfl, rfl, rfl, rfl, rfl, rfl, rfl, ⟨[], by simp⟩, fun _ _ => rfl, fun _ _ hw => .inl hw,
      fun i n hn => by simp at hn⟩
  | cons job rest ih =>
    simp only [map_cons, nodup_cons] at hnd
    obtain ⟨hnew, hnd⟩ := hnd
    have hfresh : ∀ r ∈ rest, r.jobId ≠ job.jobId := by
      intro r hr heq
      exact hnew (heq ▸ List.mem_map_of_mem hr)
    unfold launchActive at h
    split at h
    · rename_i hactive
      dsimp only at h
      generalize hmode : decide (job.status = .rollingBack) = mode at h
      generalize hlaunch : launchActive (fresh + 1) rest (s.register fresh job.jobId mode) = p at h
      obtain ⟨u, names'⟩ := p
      cases h
      have hrest := ih hlaunch hnd
      obtain ⟨extra, hh, hextra⟩ := hrest.history
      have hself := (hrest.others job.jobId hfresh).trans (Dict.get?_set_self _ _ _)
      refine ⟨hrest.jobs, hrest.index, hrest.lock, hrest.up, hrest.lifecycle, hrest.marker,
        hrest.reserving, ?_, ?_, ?_, ?_⟩
      · refine ⟨.launched job.jobId mode (s.jobs.get? job.jobId) :: extra, ?_, ?_⟩
        · rw [hh, World.register, append_assoc]
          rfl
        · intro e he
          rcases mem_cons.mp he with rfl | he
          · exact ⟨job, mem_cons_self, hactive, by rw [hmode]⟩
          · obtain ⟨r, hr, ha, heq⟩ := hextra e he
            exact ⟨r, mem_cons_of_mem _ hr, ha, heq⟩
      · intro id hid
        rw [hrest.others id fun r hr => hid r (mem_cons_of_mem _ hr)]
        exact Dict.get?_set_of_ne _ _ fun heq => hid job mem_cons_self heq.symm
      · intro id w hw
        rcases hrest.workers id w hw with hw | ⟨hlt, r, hr, hid⟩
        · simp only [World.register, Dict.get?_set] at hw
          split at hw
          · rename_i hid
            cases hw
            exact .inr ⟨by simp, job, mem_cons_self, hid.symm⟩
          · exact .inl hw
        · refine .inr ⟨?_, r, mem_cons_of_mem _ hr, hid⟩
          calc
            w.thread < fresh + 1 + names'.length := hlt
            _ = fresh + (names'.length + 1) := by omega
      · intro i n hn
        cases i with
        | zero =>
          simp only [List.getElem?_cons_zero, Option.some.injEq] at hn
          subst hn
          exact ⟨job, mem_cons_self, hactive, by rw [hmode], by rw [hmode]; exact hself⟩
        | succ i =>
          rw [List.getElem?_cons_succ] at hn
          obtain ⟨r, hr, ha, hname, hw⟩ := hrest.started i n hn
          refine ⟨r, mem_cons_of_mem _ hr, ha, hname, ?_⟩
          rw [hw, Nat.add_right_comm, Nat.add_assoc]
    · have hrest := ih h hnd
      obtain ⟨extra, hh, hextra⟩ := hrest.history
      refine ⟨hrest.jobs, hrest.index, hrest.lock, hrest.up, hrest.lifecycle, hrest.marker,
        hrest.reserving, ⟨extra, hh, fun e he => ?_⟩, ?_, ?_, ?_⟩
      · obtain ⟨r, hr, hlaunched⟩ := hextra e he
        exact ⟨r, mem_cons_of_mem _ hr, hlaunched⟩
      · exact fun id hid => hrest.others id fun r hr => hid r (mem_cons_of_mem _ hr)
      · intro id w hw
        refine (hrest.workers id w hw).imp_right ?_
        rintro ⟨hlt, r, hr, hid⟩
        exact ⟨hlt, r, mem_cons_of_mem _ hr, hid⟩
      · intro i n hn
        obtain ⟨r, hr, hrest'⟩ := hrest.started i n hn
        exact ⟨r, mem_cons_of_mem _ hr, hrest'⟩

theorem nodup_listJobs (hI : Inv s) : (s.listJobs.map Job.jobId).Nodup := by
  have hperm : (s.listJobs.map Job.jobId).Perm (s.jobs.values.map Job.jobId) :=
    (perm_insertionSort _ _).map _
  rw [hperm.nodup_iff]
  have hkeys : s.jobs.values.map Job.jobId = s.jobs.keys := by
    rw [Dict.values, Dict.keys, List.map_map]
    refine map_congr_left ?_
    rintro ⟨id, r⟩ hm
    exact hI.ids id r (Dict.get?_eq_some_iff.mpr hm)
  rw [hkeys]
  exact s.jobs.nodup

theorem reconcile_eq (s : World) : ∃ marker, s.reconcile = { s with marker := marker } := by
  unfold World.reconcile
  split
  · split
    · exact ⟨none, rfl⟩
    · exact ⟨s.marker, rfl⟩
  · exact ⟨s.marker, rfl⟩

variable {stops : Bool}

theorem outside_resume (h : outside fresh .resume s = some (t, names, stops)) :
    s.up = false ∧ stops = true ∧ ∃ index marker, repairBindings s = some index ∧
      launchActive fresh s.listJobs
        { s.crash with index := index, up := true, marker := marker } = (t, names) := by
  simp only [outside] at h
  split at h
  · cases h
  · rename_i hdown
    obtain ⟨index, hindex, heq⟩ := Option.map_eq_some_iff.mp h
    obtain ⟨marker, hreconcile⟩ := reconcile_eq { s.crash with index := index, up := true }
    rw [hreconcile] at heq
    simp only [Prod.mk.injEq] at heq
    obtain ⟨ht, hnames, hstops⟩ := heq
    exact ⟨by simpa using hdown, hstops.symm, index, marker, hindex, Prod.ext ht hnames⟩

theorem resume_spec {marker : Option JobId} (hI : Inv s) (hbelow : Below fresh s)
    (hdown : s.up = false) (hindex : repairBindings s = some index)
    (h : launchActive fresh s.listJobs
      { s.crash with index := index, up := true, marker := marker } = (t, names)) :
    Inv t ∧ Below (fresh + names.length) t ∧
      ∀ (i : Nat) (n : Name), names[i]? = some n → contract.Entry (fresh + i) n t := by
  obtain ⟨hreindexes, hcomplete⟩ := repairBindings_some hI hindex
  have hL := launched_launchActive h (nodup_listJobs hI)
  obtain ⟨extra, hh, hextra⟩ := hL.history
  have hindexed : Inv { s with index := index } := hI.reindexed hreindexes hdown
  have hrecord : ∀ id w, t.workers.get? id = some w → ∃ r, s.jobs.get? id = some r := by
    intro id w hw
    rcases hL.workers id w hw with hw | ⟨-, r, hr, hid⟩
    · cases hw
    · obtain ⟨id', hr'⟩ := mem_listJobs.mp hr
      have hsame : id' = id := (hI.ids id' r hr').symm.trans hid
      exact ⟨r, hsame ▸ hr'⟩
  have hIt : Inv t := by
    refine hindexed.frame (h := extra) hL.jobs hL.index hh ?_ ?_ hrecord ?_ (fun _ _ => hcomplete)
      fun _ => hL.reserving
    · intro τ id call ok hm
      obtain ⟨r, -, -, heq⟩ := hextra _ hm
      cases heq
    · intro request r hm
      obtain ⟨r, -, -, heq⟩ := hextra _ hm
      cases heq
    · intro id hl
      rw [hL.lifecycle] at hl
      cases hl
  refine ⟨hIt, ⟨?_, ?_⟩, ?_⟩
  · intro e he τ hτ
    rw [hh] at he
    rcases mem_append.mp he with he | he
    · exact Nat.lt_add_right _ (hbelow.history e he τ hτ)
    · obtain ⟨r, -, -, rfl⟩ := hextra e he
      cases hτ
  · intro id w hw
    rcases hL.workers id w hw with hw | ⟨hlt, -⟩
    · cases hw
    · exact hlt
  · intro i n hn
    obtain ⟨r, hr, hactive, rfl, hregistered⟩ := hL.started i n hn
    obtain ⟨id, hrec⟩ := mem_listJobs.mp hr
    have hid : r.jobId = id := hI.ids id r hrec
    have hrec' : t.jobs.get? r.jobId = some r := by rw [hL.jobs, hid]; exact hrec
    refine ⟨hL.up, hregistered, by rw [hL.reserving]; nofun, ?_, ?_⟩
    · intro _ r' hr'
      rw [hrec'] at hr'
      cases hr'
      exact hactive
    · intro e he hby
      rw [hh] at he
      rcases mem_append.mp he with he | he
      · exact absurd (hbelow.history e he _ hby) (by omega)
      · obtain ⟨r', -, -, rfl⟩ := hextra e he
        cases hby

theorem below_crash (h : Below fresh s) : Below fresh s.crash :=
  ⟨h.history, fun _ _ hw => by cases hw⟩

theorem outside_spec {e : Event} (hI : Inv s) (hbelow : Below fresh s)
    (h : outside fresh e s = some (t, new, stops)) :
    Inv t ∧ Below (fresh + new.length) t ∧ (stops = false → ∀ τ, Rely τ s t) ∧
      ∀ (i : Nat) (n : Name), new[i]? = some n → contract.Entry (fresh + i) n t := by
  cases e with
  | call request =>
    simp only [outside] at h
    split at h
    · rename_i hup
      cases h
      refine ⟨hI, hbelow.mono (by simp), fun _ τ => Rely.refl τ _, ?_⟩
      intro i n hn
      cases i with
      | zero =>
        simp only [List.getElem?_cons_zero, Option.some.injEq] at hn
        subst hn
        exact hup
      | succ i => simp at hn
    · cases h
  | crash =>
    cases h
    exact ⟨hI.crash, below_crash hbelow, nofun, fun i n hn => by simp at hn⟩
  | resume =>
    obtain ⟨hdown, rfl, index, marker, hindex, hlaunch⟩ := outside_resume h
    obtain ⟨hIt, hb, hentry⟩ := resume_spec hI hbelow hdown hindex hlaunch
    exact ⟨hIt, hb, nofun, hentry⟩
  | resumeInterrupted =>
    simp only [outside] at h
    split at h
    · cases h
    · rename_i hdown
      obtain ⟨index, hindex, heq⟩ := Option.map_eq_some_iff.mp h
      cases heq
      exact ⟨hI.reindexed (repairBindings_some hI hindex).1 (by simpa using hdown),
        hbelow.of_eq rfl rfl, nofun, fun i n hn => by simp at hn⟩
  | loseIndex =>
    simp only [outside] at h
    split at h
    · cases h
    · rename_i hdown
      cases h
      exact ⟨hI.reindexed ⟨nofun, fun _ _ _ _ _ _ => nofun⟩ (by simpa using hdown),
        hbelow.of_eq rfl rfl, nofun,
        fun i n hn => by simp at hn⟩
  | preflight token record =>
    cases h
    refine ⟨?_, hbelow.of_eq rfl rfl, fun _ τ => ?_, fun i n hn => by simp at hn⟩
    · exact hI.frame (h := []) rfl rfl (by simp) (by simp) (by simp) hI.registered hI.guard
        hI.indexed hI.unreserved
    · exact Rely.frame (h := []) (fun hl => ⟨hl, rfl, fun _ _ h => ⟨h.guard, h.worker⟩⟩) rfl rfl rfl
        (by simp) (by simp) (fun _ _ _ hres => hres) fun _ _ hw => ⟨hw, fun hl => hl⟩

theorem inv_fresh : Inv World.fresh ∧ Below 0 World.fresh := by
  have hnone : ∀ {id r}, World.fresh.jobs.get? id ≠ some r := fun h => by cases h
  refine ⟨?_, ⟨fun _ he => (nomatch he), fun _ _ hw => (nomatch hw)⟩⟩
  exact
    { ids := fun _ _ hr => absurd hr hnone
      valid := fun _ _ hr => absurd hr hnone
      backed := fun _ _ hr => absurd hr hnone
      switched := fun _ _ _ _ hm => nomatch hm
      answered := fun _ _ hm => nomatch hm
      startKeys := fun _ _ _ _ _ hr => absurd hr hnone
      indexJobs := fun _ _ hk => nomatch hk
      bindings := fun _ _ _ _ hr => absurd hr hnone
      unique := fun _ _ _ _ _ _ _ hr => absurd hr hnone
      indexed := fun hup => nomatch hup
      single := fun _ _ _ _ _ hr => absurd hr hnone
      registered := fun _ _ hw => nomatch hw
      guard := fun _ hl => nomatch hl
      unreserved := fun _ => rfl }

theorem updater_obeys : updater.Obeys contract (· = World.fresh) where
  start := by
    rintro s rfl
    exact inv_fresh
  entry := fun _ n _ hI h => wp_program n hI h
  performs := fun _ _ _ _ _ _ _ _ hτ hb hp => below_effect hτ hb hp
  returned := by
    intro τ n result s hI h
    cases n with
    | call request =>
      obtain ⟨r, rfl, hanswered⟩ := h
      exact ⟨(retire_call hI hanswered).1, fun τ' _ => (retire_call hI hanswered).2 τ'⟩
    | worker id mode => exact @retire_worker _ _ mode _ hI (.ok result)
  raised := by
    intro τ n e s hI _
    cases n with
    | call request => exact ⟨hI, fun τ' _ => Rely.refl τ' s⟩
    | worker id mode => exact @retire_worker _ _ mode _ hI (.error e)
  retires := fun _ _ _ _ _ _ hb => below_retire hb
  outside := fun _ _ _ _ _ _ hI hb h => outside_spec hI hb h

/-- **The supervisor is safe**: in every state of every run the invariant holds and every
thread still meets the contract. -/
theorem verified {P : Supervisor → Turn Answer Event → Prop} {c : Supervisor}
    (h : supervisor.Reaches P c) : updater.Verified contract c :=
  verified_of_reaches updater_obeys h

/-! ### What the steps put on record -/

variable {τ : Nat} {s t : World}

def launchesActive (s : World) : Option Act → Bool
  | some (.launch id _) =>
    (s.workers.get? id).isSome || (s.jobs.get? id).any fun r => r.status.active
  | _ => true

def Tells (s : World) (a : Act) : Entry → Prop
  | .saved _ before after => a = .saveJob after ∧ before = s.jobs.get? after.jobId
  | .launched id mode record =>
    a = .launch id mode ∧ s.workers.get? id = none ∧ record = s.jobs.get? id
  | _ => True

theorem history_effect (hp : effect τ fresh a answer s = some (t, r, new)) :
    ∃ h, t.history = s.history ++ h ∧ ∀ e ∈ h, Tells s a e := by
  have hsame : t.history = s.history → ∃ h, t.history = s.history ++ h ∧ ∀ e ∈ h, Tells s a e :=
    fun h => ⟨[], by simp [h], by simp⟩
  have hone : ∀ e, t.history = s.history ++ [e] → Tells s a e →
      ∃ h, t.history = s.history ++ h ∧ ∀ e ∈ h, Tells s a e := by
    intro e h he
    refine ⟨[e], h, ?_⟩
    intro e' he'
    cases mem_singleton.mp he'
    exact he
  cases a with
  | lock =>
    simp only [effect] at hp
    split at hp
    · cases hp
      exact hsame rfl
    · cases hp
  | saveJob job =>
    cases hp
    exact hone _ rfl ⟨rfl, rfl⟩
  | beginLifecycle id =>
    simp only [effect] at hp
    have hbegin : ∀ {t r}, s.beginLifecycle id answer.fails = (t, r) → t.history = s.history := by
      intro t r heq
      unfold World.beginLifecycle at heq
      split at heq
      · split at heq <;> cases heq <;> rfl
      · split at heq
        · cases heq; rfl
        · split at heq <;> cases heq <;> rfl
    split at hp
    · rename_i u heq
      cases hp
      exact hsame (hbegin heq)
    · rename_i u e heq
      cases hp
      exact hone (.refused τ id) (by rw [World.record, hbegin heq]) trivial
  | releaseLifecycle id terminal =>
    simp only [effect] at hp
    cases hp
    refine hsame ?_
    unfold World.releaseLifecycle
    split
    · rfl
    · split
      · rfl
      · split
        · split
          · rfl
          · split <;> rfl
        · rfl
  | host id call =>
    cases hp
    exact hone _ rfl trivial
  | launch id mode =>
    simp only [effect] at hp
    split at hp
    · split at hp
      · cases hp
        exact hsame rfl
      · cases hp
    · rename_i hnone
      cases hp
      exact hone _ rfl ⟨rfl, hnone, rfl⟩
  | newId =>
    simp only [effect] at hp
    split at hp
    · cases hp
    · cases hp
      exact hsame rfl
  | unlock | loadJob | listJobs | readIndex | saveIndex | loadPreflight | now | fault =>
    cases hp
    exact hsame rfl

variable {c d : Supervisor} {turn : Turn Answer Event} {e : Entry}

/-- What is on record after a step was on record before, or its action tells it, or it is
the launch of an active job by a new process. -/
theorem mem_history_step (hc : updater.Verified contract c) (h : updater.step c turn = some d)
    (he : e ∈ d.state.history) :
    e ∈ c.state.history ∨ (∃ a, action c turn = some a ∧ Tells c.state a e) ∨
      (∃ id r, c.state.jobs.get? id = some r ∧ r.status.active = true ∧
        e = .launched id (decide (r.status = .rollingBack)) (some r)) ∨
      ∃ request r, e = .accepted request r := by
  rcases step_state h with ⟨τ, answer, a, r, new, haction, hp⟩ | ⟨τ, n, x, hd⟩ | ⟨x, new, stops, hx⟩
  · obtain ⟨extra, hh, hextra⟩ := history_effect hp
    rw [hh] at he
    rcases mem_append.mp he with he | he
    · exact .inl he
    · exact .inr (.inl ⟨a, haction, hextra e he⟩)
  · rw [hd] at he
    unfold updater retire at he
    dsimp only at he
    split at he
    · rcases mem_append.mp he with he | he
      · exact .inl he
      · exact .inr (.inr (.inr ⟨_, _, mem_singleton.mp he⟩))
    · exact .inl he
    · split at he <;> exact .inl he
  · cases x with
    | call request =>
      simp only [updater, outside] at hx
      split at hx
      · simp only [Option.some.injEq, Prod.mk.injEq] at hx
        rw [← hx.1] at he
        exact .inl he
      · cases hx
    | crash =>
      simp only [updater, outside, Option.some.injEq, Prod.mk.injEq] at hx
      rw [← hx.1] at he
      exact .inl he
    | resume =>
      obtain ⟨-, -, index, marker, -, hlaunch⟩ := outside_resume hx
      obtain ⟨extra, hh, hextra⟩ :=
        (launched_launchActive hlaunch (nodup_listJobs hc.inv)).history
      rw [hh] at he
      rcases mem_append.mp he with he | he
      · exact .inl he
      · obtain ⟨r, hr, hactive, rfl⟩ := hextra e he
        obtain ⟨id, hrec⟩ := mem_listJobs.mp hr
        have hid : r.jobId = id := hc.inv.ids id r hrec
        have hrec' : c.state.jobs.get? r.jobId = some r := by rw [hid]; exact hrec
        exact .inr (.inr (.inl ⟨r.jobId, r, hrec', hactive, by rw [← hrec']; rfl⟩))
    | resumeInterrupted =>
      simp only [updater, outside] at hx
      split at hx
      · cases hx
      · obtain ⟨index, -, heq⟩ := Option.map_eq_some_iff.mp hx
        simp only [Prod.mk.injEq] at heq
        rw [← heq.1] at he
        exact .inl he
    | loseIndex =>
      simp only [updater, outside] at hx
      split at hx
      · cases hx
      · simp only [Option.some.injEq, Prod.mk.injEq] at hx
        rw [← hx.1] at he
        exact .inl he
    | preflight token record =>
      simp only [updater, outside, Option.some.injEq, Prod.mk.injEq] at hx
      rw [← hx.1] at he
      exact .inl he

theorem history_step (hI : Inv c.state) (h : updater.step c turn = some d) :
    ∃ extra, d.state.history = c.state.history ++ extra := by
  rcases step_state h with ⟨τ, answer, a, r, new, -, hp⟩ | ⟨τ, n, x, hd⟩ | ⟨x, new, stops, hx⟩
  · obtain ⟨extra, hh, -⟩ := history_effect hp
    exact ⟨extra, hh⟩
  · rw [hd]
    unfold updater retire
    dsimp only
    split
    · exact ⟨_, rfl⟩
    · exact ⟨[], (append_nil _).symm⟩
    · split <;> exact ⟨[], (append_nil _).symm⟩
  · have hsame : ∀ {t : World}, t.history = c.state.history →
        ∃ extra, t.history = c.state.history ++ extra := fun ht => ⟨[], by rw [ht, append_nil]⟩
    generalize d.state = s at hx ⊢
    cases x with
    | resume =>
      obtain ⟨-, -, index, marker, -, hlaunch⟩ := outside_resume hx
      obtain ⟨extra, hh, -⟩ := (launched_launchActive hlaunch (nodup_listJobs hI)).history
      exact ⟨extra, hh⟩
    | call request =>
      simp only [updater, outside] at hx
      split at hx <;> cases hx
      exact hsame rfl
    | resumeInterrupted =>
      simp only [updater, outside] at hx
      split at hx
      · cases hx
      · obtain ⟨index, -, heq⟩ := Option.map_eq_some_iff.mp hx
        simp only [Prod.mk.injEq] at heq
        exact hsame (by rw [← heq.1])
    | loseIndex =>
      simp only [updater, outside] at hx
      split at hx <;> cases hx
      exact hsame rfl
    | crash | preflight =>
      cases hx
      exact hsame rfl

theorem mem_history_run {es : List (Turn Answer Event)}
    (hc : supervisor.Reaches Machine.anyStep c) (hrun : supervisor.run c es = some d)
    (he : e ∈ c.state.history) : e ∈ d.state.history := by
  refine (Machine.run_preserves (P := Machine.anyStep)
    (I := fun c => updater.Verified contract c ∧ e ∈ c.state.history) ?_ ⟨verified hc, he⟩
    (supervisor.throughout_anyStep _ _) hrun).2
  rintro c turn d ⟨hc, he⟩ - hd
  obtain ⟨extra, hh⟩ := history_step hc.inv hd
  exact ⟨verified_step updater_obeys hc hd, hh ▸ mem_append_left _ he⟩

section Runs

variable {P : Supervisor → Turn Answer Event → Prop} {c : Supervisor}

theorem history_of_reaches {H : List Entry → Prop} (hempty : H [])
    (hstep : ∀ c d turn, updater.Verified contract c → H c.state.history → P c turn →
      updater.step c turn = some d → H d.state.history)
    (h : supervisor.Reaches P c) : updater.Verified contract c ∧ H c.state.history := by
  refine Machine.invariant (I := fun c => updater.Verified contract c ∧ H c.state.history) ?_ ?_ h
  · rintro ⟨s, threads⟩ ⟨hs, hthreads⟩
    cases hs
    cases hthreads
    refine ⟨verified (P := Machine.anyStep) ⟨_, [], ⟨rfl, rfl⟩, trivial, rfl⟩, hempty⟩
  · rintro c turn d ⟨hc, hH⟩ hP hd
    exact ⟨verified_step updater_obeys hc hd, hstep c d turn hc hH hP hd⟩

theorem launchesActive_of_reaches (h : supervisor.Reaches P c)
    (hP : ∀ c turn, P c turn → launchesActive c.state (action c turn) = true) :
    LaunchesActive c.state.history := by
  refine (history_of_reaches (H := LaunchesActive) (fun _ _ _ hm => by cases hm) ?_ h).2
  intro c d turn hc hH hturn hd id mode record hm
  rcases mem_history_step hc hd hm with hm | ⟨a, ha, htells⟩ | ⟨id', r, -, hactive, heq⟩ |
    ⟨request, r, heq⟩
  · exact hH id mode record hm
  · obtain ⟨rfl, hnone, rfl⟩ := htells
    have hlaunch := hP c turn hturn
    rw [ha, launchesActive, hnone] at hlaunch
    exact hlaunch
  · cases heq
    exact hactive
  · cases heq

end Runs

end AgenticKibana.Updater
