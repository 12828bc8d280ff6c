import AgenticKibana.Jobs.Invariant

/-!
# Artifacts

An artifact is a file outside the registry; a row refers to it, and the operations
that drop such references return the artifacts whose files the caller then deletes.
Artifact identifiers are drawn by a reservation, so no two rows refer to one file,
and what an operation returns must be what its rows stopped referring to.
-/

namespace AgenticKibana.Jobs

open AgenticKibana.Library List

/-! ### References -/

def Job.artifactIds (j : Job) : List String :=
  (j.artifact.map JobArtifact.artifactId).toList ++ j.pendingArtifactId.toList

def Registry.references (d : Registry) (artifactId : String) : Bool :=
  d.jobs.values.any fun j => j.artifact.any (·.artifactId = artifactId)

def Registry.retainedCount (d : Registry) : Nat :=
  d.jobs.total fun j => if j.artifact.isSome then 1 else 0

def Val.artifacts : Val → Option (List JobArtifact)
  | .created _ _ pruned => some pruned
  | .attached _ expired => some expired
  | .retired artifacts _ | .freed artifacts | .fenced _ artifacts | .compacted _ artifacts =>
    some artifacts
  | _ => none

variable {d d' : Registry} {j j' : Job} {x : String} {env : Env} {op : Op} {doc : Document}
  {val : Val}

theorem references_iff {artifactId : String} :
    d.references artifactId = true ↔
      ∃ id j a, d.jobs.get? id = some j ∧ j.artifact = some a ∧ a.artifactId = artifactId := by
  simp only [Registry.references, List.any_eq_true, Dict.mem_values_iff, Option.any_eq_true,
    decide_eq_true_eq]
  constructor
  · rintro ⟨j, ⟨id, hget⟩, a, ha, hid⟩
    exact ⟨id, j, a, hget, ha, hid⟩
  · rintro ⟨id, j, a, hget, ha, hid⟩
    exact ⟨j, ⟨id, hget⟩, a, ha, hid⟩

theorem mem_artifactIds :
    x ∈ j.artifactIds ↔ (∃ a, j.artifact = some a ∧ a.artifactId = x) ∨
      j.pendingArtifactId = some x := by
  simp [Job.artifactIds]

theorem artifactIds_sublist (ha : j'.artifact = j.artifact ∨ j'.artifact = none)
    (hp : j'.pendingArtifactId = j.pendingArtifactId ∨ j'.pendingArtifactId = none) :
    j'.artifactIds.Sublist j.artifactIds := by
  unfold Job.artifactIds
  apply List.Sublist.append
  · rcases ha with ha | ha
    · rw [ha]
    · rw [ha]
      exact nil_sublist _
  · rcases hp with hp | hp
    · rw [hp]
    · rw [hp]
      exact nil_sublist _

inductive ArtifactStep (env : Env) (op : Op) (id : String) (j j' : Job) : Prop
  | kept (h : j'.artifactIds.Sublist j.artifactIds)
      (hart : j'.artifact = j.artifact ∨ j'.artifact = none)
  | reserved {token suffix : String} (hop : op = .reserveArtifact id token suffix)
      (hart : j'.artifact = j.artifact) (hnew : j'.pendingArtifactId = some env.uuid)
  | attached {token : String} {artifact : JobArtifact}
      (hop : op = .attachArtifact id token artifact)
      (hold : j.pendingArtifactId = some artifact.artifactId)
      (hart : j'.artifact = some artifact) (hnew : j'.pendingArtifactId = none)

variable {id : String}

theorem RowStep.artifactStep (h : RowStep env d op id j j') : ArtifactStep env op id j j' := by
  have hkept : ∀ {k : Job}, k.artifact = j.artifact ∨ k.artifact = none →
      k.pendingArtifactId = j.pendingArtifactId ∨ k.pendingArtifactId = none →
      ArtifactStep env op id j k :=
    fun ha hp => .kept (artifactIds_sublist ha hp) ha
  have hsame : ∀ {k : Job}, k.holdings = j.holdings → ArtifactStep env op id j k := by
    intro k hh
    simp only [Job.holdings, Prod.mk.injEq] at hh
    exact hkept (.inl hh.2.1) (.inl hh.2.2)
  cases h with
  | held hlease hholds hstep =>
    cases hstep with
    | released => exact hkept (.inl rfl) (.inl rfl)
    | begun => exact hsame (Job.beginItem_holdings _ _)
    | completed => exact hsame (Job.completeItem_holdings _ _ _)
    | finished _ hended =>
      have hh := Job.finish_holdings hended
      simp only [Job.holdings, Prod.mk.injEq] at hh
      exact hkept (.inl hh.2.1) (.inr hh.2.2)
    | reserved hsuffix =>
      simp only [Op.lease, Option.some.injEq, Prod.mk.injEq] at hlease
      obtain ⟨rfl, rfl⟩ := hlease
      unfold Job.reserveArtifact
      split
      · exact .reserved rfl rfl rfl
      · exact hkept (.inl rfl) (.inl rfl)
    | cleared =>
      unfold Job.clearPendingArtifact
      split
      · exact hkept (.inl rfl) (.inr rfl)
      · exact hkept (.inl rfl) (.inl rfl)
    | _ => exact hsame rfl
  | claimed =>
    obtain ⟨-, ha, hp⟩ := Job.claim_holdings j env _ _
    exact hkept (.inl ha) hp
  | cancelled _ _ hnext =>
    rcases Job.requestCancel_holdings hnext with hh | hh
    · exact hsame hh
    · simp only [Job.holdings, Prod.mk.injEq] at hh
      exact hkept (.inl hh.2.1) (.inr hh.2.2)
  | stopped _ _ _ hnext =>
    rcases Job.stopForFence_holdings hnext with hh | hh
    · exact hsame hh
    · simp only [Job.holdings, Prod.mk.injEq] at hh
      exact hkept (.inl hh.2.1) (.inr hh.2.2)
  | expired => exact hkept (.inr rfl) (.inl rfl)
  | attached hop _ hpending => exact .attached hop hpending rfl rfl
  | _ => exact hsame rfl

theorem ArtifactStep.mem (h : ArtifactStep env op id j j') (hx : x ∈ j'.artifactIds) :
    x ∈ j.artifactIds ∨ x ∈ op.draws env ∧
      ∃ token suffix, op = .reserveArtifact id token suffix := by
  cases h with
  | kept hsub => exact .inl (hsub.subset hx)
  | @reserved token suffix hop hart hnew =>
    rw [mem_artifactIds, hart, hnew] at hx
    rcases hx with hx | hx
    · exact .inl (mem_artifactIds.mpr (.inl hx))
    · right
      subst hop
      obtain rfl := Option.some.inj hx
      exact ⟨mem_cons_self, token, suffix, rfl⟩
  | attached hop hold hart hnew =>
    left
    rw [mem_artifactIds, hart, hnew] at hx
    rcases hx with ⟨a, ha, rfl⟩ | hx
    · obtain rfl := Option.some.inj ha
      exact mem_artifactIds.mpr (.inr hold)
    · cases hx

/-- **No two rows refer to one artifact**, and no row twice. -/
structure Separate (d : Registry) : Prop where
  rows : ∀ id j id' j' x, d.jobs.get? id = some j → d.jobs.get? id' = some j' →
    x ∈ j.artifactIds → x ∈ j'.artifactIds → id = id'
  row : ∀ id j, d.jobs.get? id = some j → j.artifactIds.Nodup

theorem mem_mentions_of_artifactIds (hx : x ∈ j.artifactIds) :
    x ∈ j.mentions := by
  rw [mem_mentions]
  rcases mem_artifactIds.mp hx with ha | hp
  · exact .inr (.inr (.inl ha))
  · exact .inr (.inr (.inr hp))

theorem references_origin (hs : Sound doc) (ho : Outcome env doc.registry op val d')
    (hget : d'.jobs.get? id = some j') :
    (∃ j, doc.registry.jobs.get? id = some j ∧ ArtifactStep env op id j j') ∨
      j'.artifactIds = [] := by
  cases outcome_rows hs.keyed hs.keys ho hget with
  | stepped hj hstep => exact .inl ⟨_, hj, hstep.artifactStep⟩
  | submitted | receipt => exact .inr rfl

theorem separate_step (hs : Sound doc) (hsep : Separate doc.registry)
    (hadm : op.admissible env doc = true)
    (ho : Outcome env doc.registry op val d') : Separate d' where
  rows := by
    intro id j' id' k' x hj' hk' hx hx'
    rcases references_origin hs ho hj' with ⟨j, hj, hstep⟩ | hnil
    · rcases references_origin hs ho hk' with ⟨k, hk, hstep'⟩ | hnil
      · have hold : ∀ {i r}, doc.registry.jobs.get? i = some r → x ∈ r.artifactIds →
            x ∉ op.draws env := by
          intro i r hr hmem hdrawn
          exact (draws_fresh hadm hdrawn).1 (hs.issued i r hr x (mem_mentions_of_artifactIds hmem))
        rcases hstep.mem hx with hmem | ⟨hdrawn, token, suffix, hop⟩
        · rcases hstep'.mem hx' with hmem' | ⟨hdrawn', -⟩
          · exact hsep.rows id j id' k x hj hk hmem hmem'
          · exact absurd hdrawn' (hold hj hmem)
        · rcases hstep'.mem hx' with hmem' | ⟨-, token', suffix', hop'⟩
          · exact absurd hdrawn (hold hk hmem')
          · rw [hop, Op.reserveArtifact.injEq] at hop'
            exact hop'.1
      · rw [hnil] at hx'
        cases hx'
    · rw [hnil] at hx
      cases hx
  row := by
    intro id j' hj'
    rcases references_origin hs ho hj' with ⟨j, hj, hstep⟩ | hnil
    · have hnd := hsep.row id j hj
      cases hstep with
      | kept hsub => exact hnd.sublist hsub
      | reserved hop hart hnew =>
        subst hop
        unfold Job.artifactIds
        rw [hart, hnew]
        have hfresh := (draws_fresh hadm (x := env.uuid) mem_cons_self).1
        cases ha : j.artifact with
        | none => simp
        | some a =>
          have hissued : a.artifactId ∈ doc.issued :=
            hs.issued id j hj _ (mem_mentions.mpr (.inr (.inr (.inl ⟨a, ha, rfl⟩))))
          simp only [Option.map_some, Option.toList_some, List.cons_append, nil_append,
            nodup_cons, mem_singleton, not_mem_nil, not_false_eq_true,
            nodup_nil, and_true]
          intro heq
          exact hfresh (heq ▸ hissued)
      | attached hop hold hart hnew =>
        unfold Job.artifactIds
        rw [hart, hnew]
        simp
    · rw [hnil]
      exact nodup_nil

theorem Registry.Keyed.nodup (h : d.Keyed) :
    (d.jobs.values.map Job.jobId).Nodup := by
  have hkeys : d.jobs.values.map Job.jobId = d.jobs.entries.map Prod.fst := by
    unfold Dict.values
    rw [List.map_map]
    apply map_congr_left
    intro e he
    exact h e.1 e.2 (Dict.get?_eq_some_iff.mpr he)
  rw [hkeys]
  exact d.jobs.nodup

theorem retainedCount_expireArtifacts {rows : List Job} (hnd : (rows.map Job.jobId).Nodup)
    (hrows : ∀ r ∈ rows, d.jobs.get? r.jobId = some r ∧ r.artifact.isSome = true) :
    (expireArtifacts d rows).retainedCount + rows.length = d.retainedCount := by
  induction rows generalizing d with
  | nil => rfl
  | cons r rs ih =>
    obtain ⟨hnot, hnd'⟩ := nodup_cons.mp (map_cons ▸ hnd)
    obtain ⟨hget, hart⟩ := hrows r mem_cons_self
    have hrest : ∀ r' ∈ rs, (d.write r.jobId r.expireArtifact).jobs.get? r'.jobId = some r' ∧
        r'.artifact.isSome = true := by
      intro r' hr'
      have hne : r'.jobId ≠ r.jobId := fun heq => hnot (List.mem_map.mpr ⟨r', hr', heq⟩)
      rw [write_get?, if_neg hne]
      exact hrows r' (mem_cons_of_mem _ hr')
    have htail := ih hnd' hrest
    have hhead := Dict.total_set_of_some r.expireArtifact
      (fun j : Job => if j.artifact.isSome then 1 else 0) hget
    simp only [hart, if_true, Job.expireArtifact, Option.isSome_none, Bool.false_eq_true,
      if_false, Nat.add_zero] at hhead
    change (expireArtifacts (d.write r.jobId r.expireArtifact) rs).retainedCount +
      (rs.length + 1) = d.retainedCount
    have hwritten : (d.write r.jobId r.expireArtifact).retainedCount + 1 = d.retainedCount :=
      hhead
    omega

theorem retainedCount_attached (hk : d.Keyed) {jobId : String} {job : Job}
    (hget : d.jobs.get? jobId = some job) :
    (expireArtifacts d (expiredAtAttach d jobId)).retainedCount ≤ maxRetainedArtifacts := by
  have hnd : ((expiredAtAttach d jobId).map Job.jobId).Nodup := by
    refine List.Nodup.sublist ((drop_sublist _ _).map _) ?_
    refine ((perm_insertionSort _ _).map Job.jobId).nodup_iff.mpr ?_
    exact hk.nodup.sublist (filter_sublist.map _)
  have hlower := retainedCount_expireArtifacts hnd fun r hr =>
    ⟨(mem_expiredAtAttach hk hr).1, (mem_expiredAtAttach hk hr).2.1⟩
  -- the other rows with an artifact are those the pass sorts
  have hothers : (d.jobs.values.filter fun j => j.artifact.isSome && j.jobId ≠ jobId).length =
      d.jobs.total fun j => if j.artifact.isSome && j.jobId ≠ jobId then 1 else 0 :=
    Dict.length_filter_values _ _
  have hlen : (expiredAtAttach d jobId).length =
      (d.jobs.values.filter fun j => j.artifact.isSome && j.jobId ≠ jobId).length -
        (maxRetainedArtifacts - 1) := by
    simp only [expiredAtAttach, newestFirst, length_drop, length_insertionSort]
  have hrest : (d.jobs.erase jobId).total (fun j => if j.artifact.isSome then 1 else 0) ≤
      (d.jobs.erase jobId).total
        fun j => if j.artifact.isSome && j.jobId ≠ jobId then 1 else 0 := by
    apply Dict.total_le_total
    intro id j hj _
    refine ⟨j, hj, ?_⟩
    rw [Dict.get?_erase] at hj
    split at hj
    · cases hj
    · next hne =>
        rw [hk id j hj]
        simp [hne]
  have hall := Dict.total_erase_of_some (fun j : Job => if j.artifact.isSome then 1 else 0) hget
  have hsome := Dict.total_erase_of_some
    (fun j : Job => if j.artifact.isSome && j.jobId ≠ jobId then 1 else 0) hget
  have hone : (if job.artifact.isSome then 1 else 0) ≤ 1 := by split <;> omega
  unfold Registry.retainedCount at hlower ⊢
  have hmax : 1 ≤ maxRetainedArtifacts := by decide
  omega

/-- **At most `maxRetainedArtifacts` rows hold an artifact**, at every time: only an
attachment adds one. -/
theorem retainedCount_step (hs : Sound doc)
    (hcount : doc.registry.retainedCount ≤ maxRetainedArtifacts)
    (ho : Outcome env doc.registry op val d') :
    d'.retainedCount ≤ maxRetainedArtifacts := by
  by_cases hattach : ∃ jobId token artifact, op = .attachArtifact jobId token artifact
  · obtain ⟨jobId, token, artifact, rfl⟩ := hattach
    cases ho with
    | held hlease hholds hstep => cases hstep
    | rowMissed hmissed => rcases hmissed with ⟨_, _, h⟩ | ⟨_, _, h⟩ | ⟨_, _, h⟩ <;> cases h
    | @attached _ _ _ job hholds hpending =>
      have hwritten : (doc.registry.write jobId (job.attachArtifact artifact)).jobs.get? jobId =
          some (job.attachArtifact artifact) := by
        rw [write_get?, if_pos rfl]
      have hid : (job.attachArtifact artifact).jobId = jobId := hs.keyed jobId job hholds.get
      exact retainedCount_attached (hs.keyed.write hid) hwritten
  · apply Nat.le_trans _ hcount
    apply Dict.total_le_total
    intro id j' hj' hne
    rcases references_origin hs ho hj' with ⟨j, hj, hstep⟩ | hnil
    · refine ⟨j, hj, ?_⟩
      cases hstep with
      | kept _ hart =>
        rcases hart with hart | hart
        · rw [hart]
        · rw [hart]
          exact Nat.zero_le _
      | reserved _ hart _ => rw [hart]
      | attached hop _ _ _ => exact absurd ⟨_, _, _, hop⟩ hattach
    · exfalso
      apply hne
      cases ha : j'.artifact with
      | none => rfl
      | some a => simp [Job.artifactIds, ha] at hnil

/-! ### What an operation hands over -/

def Op.frees : Op → Bool
  | .create _ | .attachArtifact _ _ _ | .retireActor _ _ | .purgeRetiredTerminal _
  | .beginFactoryFence _ _ | .factoryCompact _ _ _ _ _ _ => true
  | _ => false

structure HandedOver (d d' : Registry) (freed : List JobArtifact) : Prop where
  unreferenced : ∀ a ∈ freed, d'.references a.artifactId = false
  returned : ∀ id j a, d.jobs.get? id = some j → j.artifact = some a →
    d'.references a.artifactId = false → a ∈ freed
  retained : d'.retainedCount ≤ maxRetainedArtifacts

theorem references_of_get? {a : JobArtifact} (hget : d.jobs.get? id = some j)
    (ha : j.artifact = some a) : d.references a.artifactId = true :=
  references_iff.mpr ⟨id, j, a, hget, ha, rfl⟩

theorem unreferenced_of_row {doc : Document} (hs : Sound doc) (hsep : Separate doc.registry)
    {op : Op} {env : Env} {val : Val} {d' : Registry} (hadm : op.admissible env doc = true)
    (ho : Outcome env doc.registry op val d') {id : String} {j : Job} {a : JobArtifact}
    (hget : doc.registry.jobs.get? id = some j) (ha : j.artifact = some a)
    (hgone : ∀ j' a', d'.jobs.get? id = some j' → j'.artifact = some a' →
      a'.artifactId ≠ a.artifactId) : d'.references a.artifactId = false := by
  apply Bool.eq_false_iff.mpr
  intro href
  obtain ⟨id', k', a', hk', ha', heq⟩ := references_iff.mp href
  have hmem' : a.artifactId ∈ k'.artifactIds := mem_artifactIds.mpr (.inl ⟨a', ha', heq⟩)
  have hmem : a.artifactId ∈ j.artifactIds := mem_artifactIds.mpr (.inl ⟨a, ha, rfl⟩)
  rcases references_origin hs ho hk' with ⟨k, hk, hstep⟩ | hnil
  · rcases hstep.mem hmem' with hold | ⟨hdrawn, -⟩
    · obtain rfl := hsep.rows id j id' k _ hget hk hmem hold
      exact hgone k' a' hk' ha' heq
    · have hissued := hs.issued id j hget _ (mem_mentions_of_artifactIds hmem)
      exact (draws_fresh hadm hdrawn).1 hissued
  · rw [hnil] at hmem'
    cases hmem'

theorem createdRegistry_get? {d1 : Registry} (hk : d1.Keyed) (job : Job) (recovery : Bool)
    (id : String) : (createdRegistry d1 job recovery).jobs.get? id =
      if id = job.jobId then some job
      else (d1.jobs.get? id).map fun j =>
        if ∃ r ∈ expiredAtCreate d1, r.jobId = id then j.expireArtifact else j := by
  change ((expireArtifacts d1 (expiredAtCreate d1)).write job.jobId job).jobs.get? id = _
  rw [write_get?, expireArtifacts_get? fun r hr => (mem_expiredAtCreate hk hr).1]

structure FreeingStep (doc : Document) (op : Op) (env : Env) (val : Val) (d' : Registry) :
    Prop where
  sound : Sound doc
  separate : Separate doc.registry
  count : doc.registry.retainedCount ≤ maxRetainedArtifacts
  admissible : op.admissible env doc = true
  outcome : Outcome env doc.registry op val d'

section Freeing

variable {doc : Document} {env : Env} {val : Val} {d' : Registry}

theorem handedOver_of_same (hcount : d.retainedCount ≤ maxRetainedArtifacts) :
    HandedOver d d [] where
  unreferenced := by simp
  returned := by
    intro id j a hj ha hno
    rw [references_of_get? hj ha] at hno
    cases hno
  retained := hcount

variable {d1 : Registry}

theorem handedOver_created {s : Submission} {pruned : List JobArtifact} {recovery : Bool}
    (h : FreeingStep doc (.create s) env val (createdRegistry d1 s.job recovery))
    (hp : Pruned doc.registry d1 pruned) :
    HandedOver doc.registry (createdRegistry d1 s.job recovery)
      (pruned ++ (expiredAtCreate d1).filterMap Job.artifact) := by
  have hfresh : s.job.jobId ∉ doc.issued :=
    (draws_fresh h.admissible (x := s.jobId) (by simp [Op.draws])).1
  have hid : ∀ {id j}, doc.registry.jobs.get? id = some j → id ≠ s.job.jobId := by
    intro id j hj heq
    exact hfresh (heq ▸ h.sound.id_issued hj)
  have hgone := fun {id j a} =>
    @unreferenced_of_row _ h.sound h.separate _ _ _ _ h.admissible h.outcome id j a
  refine ⟨?_, ?_, retainedCount_step h.sound h.count h.outcome⟩
  · intro a ha
    rcases mem_append.mp ha with ha | ha
    · obtain ⟨id, j, hj, hnone, hart⟩ := hp.handed a ha
      apply hgone hj hart
      intro j' a' hj' _
      rw [createdRegistry_get? hp.keyed, if_neg (hid hj), hnone] at hj'
      cases hj'
    · obtain ⟨r, hr, hart⟩ := mem_filterMap.mp ha
      have hr1 := (mem_expiredAtCreate hp.keyed hr).1
      have hr0 := hp.rows _ _ hr1
      apply hgone hr0 hart
      intro j' a' hj' ha'
      rw [createdRegistry_get? hp.keyed, if_neg (hid hr0), hr1, Option.map_some,
        if_pos ⟨r, hr, rfl⟩] at hj'
      obtain rfl := Option.some.inj hj'
      cases ha'
  · intro id j a hj ha hno
    rcases hp.left id j hj with hj1 | ⟨-, -, hpruned⟩
    · by_cases hex : ∃ r ∈ expiredAtCreate d1, r.jobId = id
      · obtain ⟨r, hr, rfl⟩ := hex
        have hr1 := (mem_expiredAtCreate hp.keyed hr).1
        rw [hj1, Option.some.injEq] at hr1
        exact mem_append_right _ (mem_filterMap.mpr ⟨r, hr, hr1 ▸ ha⟩)
      · have hj' : (createdRegistry d1 s.job recovery).jobs.get? id = some j := by
          rw [createdRegistry_get? hp.keyed, if_neg (hid hj), hj1, Option.map_some, if_neg hex]
        rw [references_of_get? hj' ha] at hno
        cases hno
    · exact mem_append_left _ (hpruned a ha)

variable {generation : String}

theorem retiredRow_artifact {actor : String} (h : retiredRow env actor generation j = some j') :
    j'.artifact = j.artifact := by
  unfold retiredRow at h
  split at h
  · rw [← Option.some.inj h]
  · split at h
    · rw [← Option.some.inj h]
      rfl
    · cases h

variable {artifacts : List JobArtifact}

theorem handedOver_retired {actor : String} {removed : Nat}
    (h : FreeingStep doc (.retireActor actor generation) env val d')
    (hfold : doc.registry.jobs.entries.foldl (retireRow env actor generation)
      (doc.registry, [], 0) = (d', artifacts, removed)) :
    HandedOver doc.registry d' artifacts := by
  obtain ⟨hr, hrows⟩ := retireActor_rows h.sound.keyed h.sound.keys hfold
  refine ⟨?_, ?_, retainedCount_step h.sound h.count h.outcome⟩
  · intro a ha
    rcases (hr.handed a).mp ha with hnil | ⟨id, j, hmem, hnone, hart⟩
    · cases hnil
    · have hj := Dict.get?_eq_some_iff.mpr hmem
      apply unreferenced_of_row h.sound h.separate h.admissible h.outcome hj hart
      intro j' a' hj' _
      rw [hrows id, hj, Option.bind_some, hnone] at hj'
      cases hj'
  · intro id j a hj ha hno
    cases hrow : retiredRow env actor generation j with
    | none => exact (hr.handed a).mpr (.inr ⟨id, j, Dict.get?_eq_some_iff.mp hj, hrow, ha⟩)
    | some j' =>
      have hj' : d'.jobs.get? id = some j' := by rw [hrows id, hj, Option.bind_some, hrow]
      rw [references_of_get? hj' ((retiredRow_artifact hrow).trans ha)] at hno
      cases hno

variable {jobId token : String} {job : Job}

theorem handedOver_purged
    (h : FreeingStep doc (.purgeRetiredTerminal jobId) env val (doc.registry.drop jobId job))
    (hget : doc.registry.jobs.get? jobId = some job) :
    HandedOver doc.registry (doc.registry.drop jobId job) job.artifact.toList := by
  refine ⟨?_, ?_, retainedCount_step h.sound h.count h.outcome⟩
  · intro a ha
    apply unreferenced_of_row h.sound h.separate h.admissible h.outcome hget
      (Option.mem_toList.mp ha)
    intro j' a' hj' _
    rw [drop_get?, if_pos rfl] at hj'
    cases hj'
  · intro id j a hj ha hno
    by_cases hid : id = jobId
    · subst hid
      rw [hget, Option.some.injEq] at hj
      rw [Option.mem_toList, hj]
      exact ha
    · have hj' : (doc.registry.drop jobId job).jobs.get? id = some j := by
        rw [drop_get?, if_neg hid, hj]
      rw [references_of_get? hj' ha] at hno
      cases hno

theorem attachedRegistry_get? (hk : d.Keyed) {attached : Job}
    (hget : d.jobs.get? jobId = some attached) (id : String) :
    (expireArtifacts d (expiredAtAttach d jobId)).jobs.get? id =
      if id = jobId then some attached
      else (d.jobs.get? id).map fun j =>
        if ∃ r ∈ expiredAtAttach d jobId, r.jobId = id then j.expireArtifact else j := by
  rw [expireArtifacts_get? fun r hr => (mem_expiredAtAttach hk hr).1]
  by_cases hid : id = jobId
  · subst hid
    rw [hget, Option.map_some, if_pos rfl, if_neg]
    rintro ⟨r, hr, heq⟩
    exact (mem_expiredAtAttach hk hr).2.2 heq
  · rw [if_neg hid]

theorem handedOver_attached {artifact : JobArtifact}
    (h : FreeingStep doc (.attachArtifact jobId token artifact) env val
      (expireArtifacts (doc.registry.write jobId (job.attachArtifact artifact))
        (expiredAtAttach (doc.registry.write jobId (job.attachArtifact artifact)) jobId)))
    (hget : doc.registry.jobs.get? jobId = some job) : HandedOver doc.registry
      (expireArtifacts (doc.registry.write jobId (job.attachArtifact artifact))
        (expiredAtAttach (doc.registry.write jobId (job.attachArtifact artifact)) jobId))
      (replacedArtifact job artifact ++
        (expiredAtAttach (doc.registry.write jobId (job.attachArtifact artifact)) jobId).filterMap
          Job.artifact) := by
  have hgone := fun {id j a} =>
    @unreferenced_of_row _ h.sound h.separate _ _ _ _ h.admissible h.outcome id j a
  have hretained := retainedCount_step h.sound h.count h.outcome
  have hjobId : (job.attachArtifact artifact).jobId = jobId := h.sound.keyed jobId job hget
  have hk : (doc.registry.write jobId (job.attachArtifact artifact)).Keyed :=
    h.sound.keyed.write hjobId
  have hown : (doc.registry.write jobId (job.attachArtifact artifact)).jobs.get? jobId =
      some (job.attachArtifact artifact) := by rw [write_get?, if_pos rfl]
  have hother : ∀ id, id ≠ jobId →
      (doc.registry.write jobId (job.attachArtifact artifact)).jobs.get? id =
        doc.registry.jobs.get? id := by
    intro id hid
    rw [write_get?, if_neg hid]
  generalize doc.registry.write jobId (job.attachArtifact artifact) = d1 at *
  refine ⟨?_, ?_, hretained⟩
  · intro a ha
    rcases mem_append.mp ha with ha | ha
    · rw [replacedArtifact, mem_filter, Option.mem_toList, decide_eq_true_eq] at ha
      apply hgone hget ha.1
      intro j' a' hj' ha'
      rw [attachedRegistry_get? hk hown, if_pos rfl] at hj'
      obtain rfl := Option.some.inj hj'
      obtain rfl := Option.some.inj ha'
      exact fun heq => ha.2 heq.symm
    · obtain ⟨r, hr, hart⟩ := mem_filterMap.mp ha
      obtain ⟨hr1, -, hne⟩ := mem_expiredAtAttach hk hr
      apply hgone ((hother _ hne).symm.trans hr1) hart
      intro j' a' hj' ha'
      rw [attachedRegistry_get? hk hown, if_neg hne, hr1, Option.map_some,
        if_pos ⟨r, hr, rfl⟩] at hj'
      obtain rfl := Option.some.inj hj'
      cases ha'
  · intro id j a hj ha hno
    by_cases hid : id = jobId
    · subst hid
      rw [hget, Option.some.injEq] at hj
      subst hj
      -- the row now holds the new artifact, so the old one was another
      apply mem_append_left
      rw [replacedArtifact, mem_filter, Option.mem_toList, decide_eq_true_eq]
      refine ⟨ha, fun heq => ?_⟩
      have hj' := attachedRegistry_get? hk hown id
      rw [if_pos rfl] at hj'
      rw [heq, references_of_get? hj' rfl] at hno
      cases hno
    · have hj1 := (hother id hid).trans hj
      by_cases hex : ∃ r ∈ expiredAtAttach d1 jobId, r.jobId = id
      · obtain ⟨r, hr, rfl⟩ := hex
        have hr1 := (mem_expiredAtAttach hk hr).1
        rw [hj1, Option.some.injEq] at hr1
        exact mem_append_right _ (mem_filterMap.mpr ⟨r, hr, hr1 ▸ ha⟩)
      · have hj' := attachedRegistry_get? hk hown id
        rw [if_neg hid, hj1, Option.map_some, if_neg hex] at hj'
        rw [references_of_get? hj' ha] at hno
        cases hno

def QueuedEmpty (d : Registry) (jobId : String) : Prop :=
  ∀ id j, id ≠ jobId → d.jobs.get? id = some j → j.status = .queued → j.artifact = none

/-- **The fence returns the artifacts of the rows it cancels, which keep them.** -/
theorem handedOver_fenced_iff (h : FreeingStep doc (.beginFactoryFence jobId token) env val
      { d1 with factoryFence := jobId })
    (hfold : doc.registry.jobs.entries.foldlM (fenceRow env jobId) (doc.registry, []) =
      .ok (d1, artifacts)) : HandedOver doc.registry { d1 with factoryFence := jobId } artifacts ↔
      QueuedEmpty doc.registry jobId := by
  obtain ⟨hf, -, hsome⟩ := beginFactoryFence_rows h.sound.keyed h.sound.keys hfold
  have hkept : ∀ {id j a}, doc.registry.jobs.get? id = some j → j.artifact = some a →
      Registry.references { d1 with factoryFence := jobId } a.artifactId = true := by
    intro id j a hj ha
    obtain ⟨j', hrow, hj'⟩ := hsome id j hj
    have hart : j'.artifact = j.artifact := by
      unfold fencedRow at hrow
      split at hrow
      · rw [← Except.ok.inj hrow]
      · exact stopForFence_artifact hrow
    exact references_of_get? (d := { d1 with factoryFence := jobId }) hj' (hart.trans ha)
  constructor
  · intro hover id j hne hj hq
    cases ha : j.artifact with
    | none => rfl
    | some a =>
      have hmem : a ∈ artifacts :=
        (hf.handed a).mpr (.inr ⟨id, j, Dict.get?_eq_some_iff.mp hj, hne, hq, ha⟩)
      have hno := hover.unreferenced a hmem
      rw [hkept hj ha] at hno
      cases hno
  · intro hempty
    refine ⟨?_, ?_, retainedCount_step h.sound h.count h.outcome⟩
    · intro a ha
      rcases (hf.handed a).mp ha with hnil | ⟨id, j, hmem, hne, hq, hart⟩
      · cases hnil
      · rw [hempty id j hne (Dict.get?_eq_some_iff.mpr hmem) hq] at hart
        cases hart
    · intro id j a hj ha hno
      rw [hkept hj ha] at hno
      cases hno

theorem handedOver_compacted {status : JobStatus} {result : JobResult}
    {appVersion buildSha : String} {receipt : Job}
    (h : FreeingStep doc (.factoryCompact jobId token status result appVersion buildSha) env val
      ⟨Dict.empty.set jobId receipt, .empty, jobId⟩) (hreceipt : receipt.artifact = none) :
    HandedOver doc.registry ⟨Dict.empty.set jobId receipt, .empty, jobId⟩
      (doc.registry.jobs.values.filterMap Job.artifact) := by
  refine ⟨?_, ?_, retainedCount_step h.sound h.count h.outcome⟩
  · intro a ha
    obtain ⟨j, hmem, hart⟩ := mem_filterMap.mp ha
    obtain ⟨id, hj⟩ := Dict.mem_values_iff.mp hmem
    apply unreferenced_of_row h.sound h.separate h.admissible h.outcome hj hart
    intro j' a' hj' ha'
    rw [Dict.get?_set] at hj'
    split at hj'
    · obtain rfl := Option.some.inj hj'
      rw [hreceipt] at ha'
      cases ha'
    · cases hj'
  · intro id j a hj ha _
    exact mem_filterMap.mpr ⟨j, Dict.mem_values_iff.mpr ⟨id, hj⟩, ha⟩

theorem handedOver_of_outcome (h : FreeingStep doc op env val d') (hop : op.frees = true) :
    ∃ freed, val.artifacts = some freed ∧ (HandedOver doc.registry d' freed ↔
      ∀ jobId token, op = .beginFactoryFence jobId token → QueuedEmpty doc.registry jobId) := by
  cases h.outcome with
  | bound | purgeMissed => exact ⟨[], rfl, iff_of_true (handedOver_of_same h.count) (by simp)⟩
  | created _ _ hprune _ =>
    have hp := pruneTerminal_spec h.sound.keyed h.sound.keys hprune
    exact ⟨_, rfl, iff_of_true (handedOver_created h hp) (by simp)⟩
  | retired hfold => exact ⟨_, rfl, iff_of_true (handedOver_retired h hfold) (by simp)⟩
  | purged hget _ => exact ⟨_, rfl, iff_of_true (handedOver_purged h hget) (by simp)⟩
  | attached hholds _ => exact ⟨_, rfl, iff_of_true (handedOver_attached h hholds.get) (by simp)⟩
  | @fenced jobId token _ _ _ _ _ hfold =>
    refine ⟨_, rfl, (handedOver_fenced_iff h hfold).trans ?_⟩
    constructor
    · intro hempty jobId' token' heq
      rw [Op.beginFactoryFence.injEq] at heq
      exact heq.1 ▸ hempty
    · exact fun hall => hall jobId token rfl
  | compacted => exact ⟨_, rfl, iff_of_true (handedOver_compacted h rfl) (by simp)⟩
  | held hlease hholds hstep => cases hstep <;> cases hop
  | rowMissed hmissed => rcases hmissed with ⟨_, _, rfl⟩ | ⟨_, _, rfl⟩ | ⟨_, _, rfl⟩ <;> cases hop
  | _ => cases hop

end Freeing

theorem freeingStep_of_reaches {P : Document → Op × Env → Prop}
    (h : registryMachine.Reaches P doc) :
    Separate doc.registry ∧ doc.registry.retainedCount ≤ maxRetainedArtifacts := by
  refine registry_invariant
    (D := fun doc => Separate doc.registry ∧ doc.registry.retainedCount ≤ maxRetainedArtifacts)
    ?_ ?_ h
  · refine ⟨⟨?_, ?_⟩, Nat.zero_le _⟩
    · intro id j id' j' x hj
      cases hj
    · intro id j hj
      cases hj
  · rintro doc doc' op env val hs ⟨hsep, hcount⟩ - hadm ho -
    exact ⟨separate_step hs hsep hadm ho, retainedCount_step hs hcount ho⟩

/-- **What the operations hand over for deletion.**  In every reachable registry, each of the six
operations that return artifacts returns exactly what its rows stop referring to, and at most
`maxRetainedArtifacts` rows hold one afterwards — unless it is the fence, and a row that it
cancels while queued holds one. -/
theorem artifacts_handed_over_iff {doc doc' : Document} {op : Op} {env : Env} {val : Val}
    (h : registryMachine.Reaches Machine.anyStep doc) (hadm : op.admissible env doc = true)
    (hok : op.change env doc = .ok (val, doc')) (hop : op.frees = true) :
    ∃ freed, val.artifacts = some freed ∧ (HandedOver doc.registry doc'.registry freed ↔
      ∀ jobId token, op = .beginFactoryFence jobId token → QueuedEmpty doc.registry jobId) := by
  obtain ⟨hsep, hcount⟩ := freeingStep_of_reaches h
  have hs := sound_of_reaches h
  exact handedOver_of_outcome ⟨hs, hsep, hcount, hadm, (hs.change hadm hok).1⟩ hop

def sampleArtifact (artifactId : String) : JobArtifact where
  artifactId := artifactId
  filename := "cases.zip"
  contentType := "application/zip"
  size := 4
  sha256 := sampleDigest 'd'
  createdAt := "2026-01-02T00:00:00Z"

/-- An export attaches its archive and is released again, while a factory reset has
been claimed. -/
def requeuedExport : List (Op × Env) :=
  [(.create (sampleExport "job-1" "2026-01-01" 'a'), sampleEnv 0 "u"),
    (.claimNext "w1" 30000, sampleEnv 0 "t1"),
    (.reserveArtifact "job-1" "t1" ".zip", sampleEnv 1 "art-1"),
    (.attachArtifact "job-1" "t1" (sampleArtifact "art-1"), sampleEnv 2 "u"),
    (.create (sampleReset "job-2" "2026-01-02" 'b'), sampleEnv 3 "u"),
    (.claimNext "w2" 30000, sampleEnv 4 "t2"),
    (.releaseClaim "job-1" "t1", sampleEnv 5 "u")]

/-- Retiring the account of the released export returns its archive. -/
theorem artifacts_handed_over_iff_of_one_attachment :
    ∃ doc doc' freed, HandedOver doc.registry doc'.registry freed ∧
      (doc : Document).registry.references "art-1" = true ∧
      (doc' : Document).registry.references "art-1" = false := by
  obtain ⟨doc, -, hreach, hcheck⟩ := Machine.reaches_of_run registryMachine
    (fun doc => doc.registry.references "art-1" &&
      (Op.admissible (.retireActor "alice" "g1") (sampleEnv 6 "u") doc &&
        match Op.change (.retireActor "alice" "g1") (sampleEnv 6 "u") doc with
        | .ok (_, doc') => !doc'.registry.references "art-1"
        | .error _ => false)) emptyDocument requeuedExport rfl (by decide +kernel)
  simp only [Bool.and_eq_true] at hcheck
  obtain ⟨hbefore, hadm, hafter⟩ := hcheck
  split at hafter
  · next val doc' hok =>
      obtain ⟨freed, -, hiff⟩ := artifacts_handed_over_iff hreach hadm hok rfl
      have hover : HandedOver doc.registry doc'.registry freed := hiff.mpr (by
        intro jobId token hop
        cases hop)
      exact ⟨doc, doc', freed, hover, hbefore, by simpa using hafter⟩
  · cases hafter

/-- The fence returns an artifact that the cancelled row still refers to. -/
theorem fence_returns_referenced_artifact :
    ¬ ∀ (doc doc' : Document) (op : Op) (env : Env) (val : Val),
      registryMachine.Reaches Machine.anyStep doc → op.admissible env doc = true →
      op.change env doc = .ok (val, doc') → op.frees = true →
      ∃ freed, val.artifacts = some freed ∧ HandedOver doc.registry doc'.registry freed := by
  intro h
  obtain ⟨doc, -, hreach, hcheck⟩ := Machine.reaches_of_run registryMachine
    (fun doc => Op.admissible (.beginFactoryFence "job-2" "t2") (sampleEnv 6 "u") doc &&
      match Op.change (.beginFactoryFence "job-2" "t2") (sampleEnv 6 "u") doc with
      | .ok (val, doc') => val.artifacts.any fun freed =>
        freed.any fun a => doc'.registry.references a.artifactId
      | .error _ => false) emptyDocument requeuedExport rfl (by decide +kernel)
  rw [Bool.and_eq_true] at hcheck
  obtain ⟨hadm, hcheck⟩ := hcheck
  split at hcheck
  · next val doc' hok =>
      obtain ⟨freed, hfreed, hover⟩ := h doc doc' _ _ val hreach hadm hok rfl
      rw [hfreed, Option.any_some, List.any_eq_true] at hcheck
      obtain ⟨a, ha, href⟩ := hcheck
      rw [hover.unreferenced a ha] at href
      cases href
  · cases hcheck

end AgenticKibana.Jobs
