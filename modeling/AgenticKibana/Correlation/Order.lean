import AgenticKibana.Correlation.Triggers
import AgenticKibana.Correlation.Signatures
import Mathlib.Data.List.Sort
import Mathlib.Data.List.Forall2

/-!
# Every alert in one cluster, in any order of arrival

An alert should be a member of exactly one cluster.  It is in none where it has nothing to be
grouped by, not even a rule, and in several because a cluster gathers every event with its value.
What `correlate` finds does not depend on the order in which the events arrived, but for two ties:
between rules that observed as many events of a key, and between the earliest members of a cluster
that name a source.
-/

namespace AgenticKibana.Correlation

open AgenticKibana.Library

variable {env : Env} {prefs : Preferences} {strategy : EntityStrategy} {alerts : Bool}
  {events : List RawEvent} {ev : RawEvent} {key : EntityKey}

def InScope (prefs : Preferences) (alerts : Bool) (ev : RawEvent) : Prop :=
  (alerts = true ∨ ev.isAlert = true) ∧ (prefs.config ev.bucket).mode ≠ .never

/-- Something to group an event by: what its rule is grouped by, under the automatic strategy, or a
rung of the ladder. -/
def Resolvable (env : Env) (prefs : Preferences) (strategy : EntityStrategy) (ev : RawEvent) :
    Prop :=
  (strategy = .auto ∧ (ev.entityValue env (prefs.config ev.bucket).groupBy).isSome = true) ∨
    ∃ et ∈ strategy.ladder, (ev.entityValue env et).isSome = true

def AllCovered (env : Env) (events : List RawEvent) (prefs : Preferences)
    (entityStrategy : Option EntityStrategy) (role : Option String) : Prop :=
  ∀ ev ∈ events, InScope prefs (batchIsAlerts env role) ev →
    ∃ c ∈ correlate env events prefs entityStrategy role, ev ∈ c.memberEvents

structure Cluster.Apart (c d : Cluster) : Prop where
  alerts : ∀ ev, ev.isAlert = true → ev ∈ c.memberEvents → ev ∉ d.memberEvents
  signature : c.signature ≠ d.signature

instance : Std.Symm Cluster.Apart :=
  ⟨fun _ _ h => ⟨fun ev halert h1 h2 => h.alerts ev halert h2 h1, h.signature.symm⟩⟩

def AllApart (env : Env) (events : List RawEvent) (prefs : Preferences)
    (entityStrategy : Option EntityStrategy) (role : Option String) : Prop :=
  (correlate env events prefs entityStrategy role).Pairwise Cluster.Apart

theorem resolvable_iff : Resolvable env prefs strategy ev ↔
    ∃ key, resolveEntity env ev (prefs.config ev.bucket).groupBy strategy = some key := by
  have hunder : ∀ et, (ev.keyUnder env et).isSome = (ev.entityValue env et).isSome := fun et =>
    Option.isSome_map
  have hclimbed : (strategy.ladder.findSome? (ev.keyUnder env)).isSome = true ↔
      ∃ et ∈ strategy.ladder, (ev.entityValue env et).isSome = true := by
    rw [List.findSome?_isSome_iff]
    simp only [hunder]
  rw [← Option.isSome_iff_exists]
  unfold Resolvable resolveEntity
  dsimp only
  by_cases hauto : strategy = .auto
  · rw [if_pos hauto, Option.isSome_or, Bool.or_eq_true, hunder, hclimbed]
    simp only [hauto, true_and]
  · rw [if_neg hauto, hclimbed]
    simp only [hauto, false_and, false_or]

theorem mem_cluster_iff {entityStrategy : Option EntityStrategy} {role : Option String}
    (hev : ev ∈ events) :
    (∃ c ∈ correlate env events prefs entityStrategy role, ev ∈ c.memberEvents) ↔
      ∃ key e, SetsOff env prefs (entityStrategy.getD prefs.entityStrategy) (batchIsAlerts env role)
        events e key ∧ ev.Carries env key := by
  constructor
  · rintro ⟨c, hc, hmem⟩
    obtain ⟨key, m, hm, rfl⟩ := mem_correlate.mp hc
    obtain ⟨e, he⟩ := triggered_iff_setsOff.mp (triggered_iff.mpr ⟨m, hm⟩)
    exact ⟨key, e, he, (mem_buildCluster.mp hmem).2⟩
  · rintro ⟨key, e, he, hcarries⟩
    obtain ⟨m, hm⟩ := triggered_iff.mp (triggered_iff_setsOff.mpr ⟨e, he⟩)
    exact ⟨_, mem_correlate.mpr ⟨key, m, hm, rfl⟩, mem_buildCluster.mpr ⟨hev, hcarries⟩⟩

/-- **Every alert is in a cluster** if and only if each has something to be grouped by, or shares
the value of an event that sets off its key. -/
theorem all_covered_iff (env : Env) (events : List RawEvent) (prefs : Preferences)
    (entityStrategy : Option EntityStrategy) (role : Option String) :
    AllCovered env events prefs entityStrategy role ↔
      ∀ ev ∈ events, InScope prefs (batchIsAlerts env role) ev →
        Resolvable env prefs (entityStrategy.getD prefs.entityStrategy) ev ∨
          ∃ key e, SetsOff env prefs (entityStrategy.getD prefs.entityStrategy)
            (batchIsAlerts env role) events e key ∧ ev.Carries env key := by
  unfold AllCovered
  refine forall₂_congr fun ev hev => forall_congr' fun hscope => ?_
  rw [mem_cluster_iff hev]
  constructor
  · exact .inr
  · rintro (hresolvable | hcarries)
    · obtain ⟨key, hkey⟩ := resolvable_iff.mp hresolvable
      exact ⟨key, ev, setsOff_of_alert hev hscope.1 hscope.2 hkey, carries_of_resolve hkey⟩
    · exact hcarries

def sampleEnv : Env := ⟨id, fun _ => ""⟩

def bareAlert : RawEvent := { id := "a", indexRole := "alerts" }

/-- A bare alert is in no cluster. -/
theorem bare_alert_dropped : ¬ ∀ env events prefs entityStrategy role,
    AllCovered env events prefs entityStrategy role := by
  intro hall
  obtain ⟨key, ev, ⟨hev, -⟩, -⟩ := (mem_cluster_iff (List.mem_singleton_self bareAlert)).mp
    (hall sampleEnv [bareAlert] {} none none bareAlert (List.mem_singleton_self _)
      ⟨.inr rfl, by decide⟩)
  obtain ⟨hmem, -, hkey⟩ := mem_groupOf.mp hev
  rw [List.mem_singleton.mp hmem] at hkey
  have hnone : resolveEntity sampleEnv bareAlert
      (({} : Preferences).config bareAlert.bucket).groupBy .auto = none := by
    decide
  exact Option.some_ne_none key (hkey.symm.trans hnone)

/-! ### At most one cluster -/

def sourceOf (env : Env) (events : List RawEvent) (key : EntityKey) : Option String :=
  (byTime (membersOf env events key)).findSome? fun ev => nonempty ev.sourceId

/-- The incident that a key's cluster stands for: the source of the earliest event with the value
that names one, and the key. -/
def incidentOf (env : Env) (events : List RawEvent) (key : EntityKey) : Incident :=
  ⟨sourceOf env events key, key⟩

/-- What keeps two keys that events set off apart: no alert has the values of both, neither source
id is read as the type of the other, and no two texts have one hash. -/
structure KeysApart (env : Env) (events : List RawEvent) (k1 k2 : EntityKey) : Prop where
  alerts : ∀ ev ∈ events, ev.isAlert = true → ev.Carries env k1 → ¬ ev.Carries env k2
  read : ¬ Misread (incidentOf env events k1) (incidentOf env events k2)
  readBack : ¬ Misread (incidentOf env events k2) (incidentOf env events k1)
  digests : signatureText (incidentOf env events k1).parts ≠
      signatureText (incidentOf env events k2).parts →
    digest (signatureText (incidentOf env events k1).parts) ≠
      digest (signatureText (incidentOf env events k2).parts)

theorem keysApart_iff {k1 k2 : EntityKey} {m1 m2 : TriggerMeta} (hne : k1 ≠ k2) :
    (buildCluster env k1 (membersOf env events k1) (some m1)).Apart
        (buildCluster env k2 (membersOf env events k2) (some m2)) ↔
      KeysApart env events k1 k2 := by
  have hsignature : ∀ k m, (buildCluster env k (membersOf env events k) (some m)).signature =
      digest (signatureText (incidentOf env events k).parts) := fun _ _ => rfl
  have hsame := same_text_iff (x := incidentOf env events k1) (y := incidentOf env events k2) hne
  constructor
  · intro hapart
    have hdigest := hapart.signature
    rw [hsignature, hsignature] at hdigest
    have htexts := mt (congrArg digest) hdigest
    refine ⟨fun ev hev halert h1 h2 => ?_, fun h => htexts (hsame.mpr (.inl h)),
      fun h => htexts (hsame.mpr (.inr h)), fun _ => hdigest⟩
    exact hapart.alerts ev halert (mem_buildCluster.mpr ⟨hev, h1⟩) (mem_buildCluster.mpr ⟨hev, h2⟩)
  · intro hapart
    refine ⟨fun ev halert h1 h2 => ?_, ?_⟩
    · obtain ⟨hev, hcarries⟩ := mem_buildCluster.mp h1
      exact hapart.alerts ev hev halert hcarries (mem_buildCluster.mp h2).2
    · rw [hsignature, hsignature]
      exact hapart.digests fun h => (hsame.mp h).elim hapart.read hapart.readBack

/-- **Every alert is in at most one cluster**, and the signatures differ, if and only if any two
keys that events set off are apart. -/
theorem all_apart_iff (env : Env) (events : List RawEvent) (prefs : Preferences)
    (entityStrategy : Option EntityStrategy) (role : Option String) :
    AllApart env events prefs entityStrategy role ↔
      ∀ e1 e2 k1 k2, k1 ≠ k2 →
        SetsOff env prefs (entityStrategy.getD prefs.entityStrategy) (batchIsAlerts env role)
          events e1 k1 →
        SetsOff env prefs (entityStrategy.getD prefs.entityStrategy) (batchIsAlerts env role)
          events e2 k2 → KeysApart env events k1 k2 := by
  unfold AllApart
  rw [correlate_eq, List.pairwise_map]
  generalize hd : triggers env prefs (entityStrategy.getD prefs.entityStrategy)
    (batchIsAlerts env role) events = d
  have hperm := List.mergeSort_perm d.entries fun a b => keyLe a.1 b.1
  have hset : ∀ key, (∃ e, SetsOff env prefs (entityStrategy.getD prefs.entityStrategy)
      (batchIsAlerts env role) events e key) ↔ ∃ m, d.get? key = some m := by
    intro key
    rw [← triggered_iff_setsOff, triggered_iff, hd]
  have hentry : ∀ {key m}, d.get? key = some m ↔
      (key, m) ∈ d.entries.mergeSort fun a b => keyLe a.1 b.1 := by
    intro key m
    rw [Dict.get?_eq_some_iff, hperm.mem_iff]
  have hdistinct : ∀ {a b : EntityKey × TriggerMeta}, d.get? a.1 = some a.2 →
    d.get? b.1 = some b.2 → a ≠ b → a.1 ≠ b.1 := by
    rintro ⟨key, m⟩ ⟨_, m'⟩ ha hb hne rfl
    exact hne (Prod.ext rfl (Option.some.inj (ha.symm.trans hb)))
  have hsymm : Std.Symm fun a b : EntityKey × TriggerMeta =>
      (buildCluster env a.1 (membersOf env events a.1) (some a.2)).Apart
        (buildCluster env b.1 (membersOf env events b.1) (some b.2)) :=
    ⟨fun _ _ h => Std.Symm.symm _ _ h⟩
  constructor
  · intro hpairwise e1 e2 k1 k2 hne h1 h2
    obtain ⟨m1, hm1⟩ := (hset k1).mp ⟨e1, h1⟩
    obtain ⟨m2, hm2⟩ := (hset k2).mp ⟨e2, h2⟩
    have hapart := hpairwise.forall (hentry.mp hm1) (hentry.mp hm2)
      fun heq => hne (congrArg Prod.fst heq)
    exact (keysApart_iff hne).mp hapart
  · intro hapart
    refine (hperm.nodup_iff.mpr (List.Nodup.of_map _ d.nodup)).pairwise_of_forall_ne ?_
    intro a ha b hb hne
    have hma := hentry.mpr ha
    have hmb := hentry.mpr hb
    obtain ⟨e1, h1⟩ := (hset a.1).mpr ⟨a.2, hma⟩
    obtain ⟨e2, h2⟩ := (hset b.1).mpr ⟨b.2, hmb⟩
    have hkeys := hdistinct hma hmb hne
    exact (keysApart_iff hkeys).mpr (hapart e1 e2 a.1 b.1 hkeys h1 h2)

def addressAlert : RawEvent :=
  { id := "a", indexRole := "alerts", ip := some "10.0.0.1", host := some "web", rule := some "r" }

def hostAlert : RawEvent :=
  { id := "b", indexRole := "alerts", host := some "web", rule := some "r" }

/-- The first resolves to its address and the second to the host, whose cluster gathers both. -/
theorem alert_in_two_clusters : ¬ ∀ env events prefs entityStrategy role,
    AllApart env events prefs entityStrategy role := by
  intro hall
  have hcluster : ∀ ev ∈ [addressAlert, hostAlert], ∀ key,
      resolveEntity sampleEnv ev .ip .auto = some key →
      ∃ c ∈ correlate sampleEnv [addressAlert, hostAlert] {} none none, c.groupBy = key.1 ∧
        ∀ ev' ∈ [addressAlert, hostAlert], ev'.Carries sampleEnv key → ev' ∈ c.memberEvents := by
    intro ev hev key hkey
    have halert : ev.isAlert = true ∧ ev.bucket = "r" := by
      simp only [List.mem_cons, List.not_mem_nil, or_false] at hev
      rcases hev with rfl | rfl
      · exact ⟨rfl, rfl⟩
      · exact ⟨rfl, rfl⟩
    have hset := @setsOff_of_alert sampleEnv {} .auto false _ ev key hev (.inr halert.1)
      (by rw [halert.2]; decide) (by rw [halert.2]; exact hkey)
    obtain ⟨m, hm⟩ := triggered_iff.mp (triggered_iff_setsOff.mpr ⟨ev, hset⟩)
    refine ⟨_, mem_correlate.mpr ⟨key, m, hm, rfl⟩, rfl, fun ev' hev' hcarries => ?_⟩
    exact mem_buildCluster.mpr ⟨hev', hcarries⟩
  obtain ⟨c, hc, hip, hmem1⟩ := hcluster addressAlert (by simp) (.ip, "10.0.0.1") (by decide)
  obtain ⟨d, hd, hhost, hmem2⟩ := hcluster hostAlert (by simp) (.host, "web") (by decide)
  have hne : c ≠ d := by
    rintro rfl
    rw [hip] at hhost
    cases hhost
  have hapart := (hall sampleEnv [addressAlert, hostAlert] {} none none).forall hc hd hne
  exact hapart.alerts addressAlert rfl
    (hmem1 addressAlert (by simp) (by unfold RawEvent.Carries; decide))
    (hmem2 addressAlert (by simp) (by unfold RawEvent.Carries; decide))

/-! ### The order of arrival -/

open List

variable {env : Env} {prefs : Preferences} {strategy : EntityStrategy} {alerts : Bool}
  {events events' : List RawEvent} {key : EntityKey} {rule : String} {m : TriggerMeta}

def RuleMeta (env : Env) (prefs : Preferences) (strategy : EntityStrategy) (alerts : Bool)
    (events : List RawEvent) (key : EntityKey) (rule : String) (m : TriggerMeta) : Prop :=
  (prefs.config rule).mode ≠ .never ∧
    groupMeta prefs alerts rule key (groupOf env prefs strategy events rule key) = some m

def PrimaryClear (env : Env) (prefs : Preferences) (strategy : EntityStrategy) (alerts : Bool)
    (events : List RawEvent) (key : EntityKey) : Prop :=
  ∀ rule rule' m m', RuleMeta env prefs strategy alerts events key rule m →
    RuleMeta env prefs strategy alerts events key rule' m' → m.observedCount = m'.observedCount →
    (∀ r n, RuleMeta env prefs strategy alerts events key r n → n.observedCount ≤ m.observedCount) →
    rule = rule'

def Sourced (env : Env) (events : List RawEvent) (key : EntityKey) (ev : RawEvent) : Prop :=
  ev ∈ events ∧ ev.Carries env key ∧ (nonempty ev.sourceId).isSome = true

def SourceClear (env : Env) (events : List RawEvent) (key : EntityKey) : Prop :=
  ∀ a b, Sourced env events key a → Sourced env events key b →
    (∀ ev, Sourced env events key ev → a.timestampMillis ≤ ev.timestampMillis) →
    (∀ ev, Sourced env events key ev → b.timestampMillis ≤ ev.timestampMillis) →
    nonempty a.sourceId = nonempty b.sourceId

structure Agree (env : Env) (prefs : Preferences) (strategy : EntityStrategy) (alerts : Bool)
    (events : List RawEvent) (key : EntityKey) (c d : Cluster) : Prop where
  entity : c.groupBy = key.1 ∧ d.groupBy = key.1 ∧ c.entity = d.entity
  carried : ∀ ev, ev ∈ c.memberEvents ↔ ev ∈ events ∧ ev.Carries env key
  members : c.memberEvents.Perm d.memberEvents
  observed : c.triggerReason.map TriggerReason.observedCount =
    d.triggerReason.map TriggerReason.observedCount
  signature : SourceClear env events key → c.signature = d.signature
  primary : PrimaryClear env prefs strategy alerts events key → c.triggerReason = d.triggerReason

theorem groupOf_perm (h : events.Perm events') : (groupOf env prefs strategy events rule key).Perm
    (groupOf env prefs strategy events' rule key) :=
  h.filter _

variable {g g' : List RawEvent}

theorem windowDetail_perm (cfg : CorrelationRule) (h : g.Perm g') :
    windowDetail g cfg = windowDetail g' cfg := by
  have htimes := mergeSort_le_congr (h.map RawEvent.timestampMillis)
  unfold windowDetail
  simp only [htimes, h.length_eq]

theorem effective_perm (cfg : CorrelationRule) (h : g.Perm g') :
    effective alerts cfg g = effective alerts cfg g' := by
  unfold effective
  rw [h.any_eq]

theorem groupMeta_perm (h : g.Perm g') :
    groupMeta prefs alerts rule key g = groupMeta prefs alerts rule key g' := by
  unfold groupMeta
  dsimp only
  rw [effective_perm _ h, windowDetail_perm _ h, min?_congr (h.map _), max?_congr (h.map _)]

theorem ruleMeta_perm (h : events.Perm events') :
    RuleMeta env prefs strategy alerts events key rule m ↔
      RuleMeta env prefs strategy alerts events' key rule m := by
  unfold RuleMeta
  rw [groupMeta_perm (groupOf_perm h)]

theorem ruleMeta_of_get (h : (triggers env prefs strategy alerts events).get? key = some m) :
    (∃ rule, RuleMeta env prefs strategy alerts events key rule m) ∧
      ∀ r n, RuleMeta env prefs strategy alerts events key r n →
        n.observedCount ≤ m.observedCount := by
  have hbest := Dict.best_of_get h
  exact ⟨mem_candidates.mp hbest.mem, fun r n hn => hbest.le n (mem_candidates.mpr ⟨r, hn⟩)⟩

variable {m' : TriggerMeta}

theorem triggers_perm (h : events.Perm events')
    (hm : (triggers env prefs strategy alerts events).get? key = some m)
    (hm' : (triggers env prefs strategy alerts events').get? key = some m') :
    m.observedCount = m'.observedCount ∧
      (PrimaryClear env prefs strategy alerts events key → m = m') := by
  obtain ⟨⟨rule, hrule⟩, hmax⟩ := ruleMeta_of_get hm
  obtain ⟨⟨rule', hrule'⟩, hmax'⟩ := ruleMeta_of_get hm'
  have hother := (ruleMeta_perm h).mpr hrule'
  have hcount : m.observedCount = m'.observedCount :=
    le_antisymm (hmax' rule m ((ruleMeta_perm h).mp hrule)) (hmax rule' m' hother)
  refine ⟨hcount, fun hclear => ?_⟩
  have hsame := hclear rule rule' m m' hrule hother hcount hmax
  subst hsame
  exact Option.some.inj (hrule.2.symm.trans hother.2)

theorem triggered_perm (h : events.Perm events') (key : EntityKey) :
    Triggered env prefs strategy alerts events key ↔
      Triggered env prefs strategy alerts events' key := by
  refine exists_congr fun rule => and_congr_right fun _ => ?_
  rw [effective_perm _ (groupOf_perm h), windowDetail_perm _ (groupOf_perm h)]

theorem keyLe_iff (a b : EntityKey) :
    keyLe a b = true ↔ toLex (a.1.value, a.2) ≤ toLex (b.1.value, b.2) := by
  rw [Prod.Lex.toLex_le_toLex]
  simp only [keyLe, Bool.or_eq_true, Bool.and_eq_true, decide_eq_true_eq, beq_iff_eq]

theorem keyLe_trans (a b c : EntityKey) (hab : keyLe a b = true) (hbc : keyLe b c = true) :
    keyLe a c = true := by
  rw [keyLe_iff] at hab hbc ⊢
  exact hab.trans hbc

theorem keyLe_total (a b : EntityKey) : (keyLe a b || keyLe b a) = true := by
  rw [Bool.or_eq_true, keyLe_iff, keyLe_iff]
  exact le_total _ _

theorem keyLe_antisymm (a b : EntityKey) (hab : keyLe a b = true) (hba : keyLe b a = true) :
    a = b := by
  rw [keyLe_iff] at hab hba
  obtain ⟨htype, hvalue⟩ := Prod.mk.inj (toLex.injective (le_antisymm hab hba))
  exact Prod.ext (EntityType.value_injective htype) hvalue

def sortedKeys (d : Dict EntityKey TriggerMeta) : List EntityKey :=
  (d.entries.mergeSort fun a b => keyLe a.1 b.1).map Prod.fst

theorem sortedKeys_eq (d : Dict EntityKey TriggerMeta) : sortedKeys d = d.keys.mergeSort keyLe :=
  map_fst_mergeSort d keyLe_trans keyLe_total keyLe_antisymm

theorem sortedKeys_perm (h : events.Perm events') :
    sortedKeys (triggers env prefs strategy alerts events) =
      sortedKeys (triggers env prefs strategy alerts events') := by
  have hmem : ∀ (d : Dict EntityKey TriggerMeta) key, key ∈ d.keys ↔ ∃ m, d.get? key = some m := by
    intro d key
    rw [← Option.isSome_iff_exists, Option.isSome_iff_ne_none, Ne, Dict.get?_eq_none_iff, not_not]
  rw [sortedKeys_eq, sortedKeys_eq]
  refine mergeSort_congr keyLe_trans keyLe_total keyLe_antisymm ?_
  refine (perm_ext_iff_of_nodup (Dict.nodup _) (Dict.nodup _)).mpr fun key => ?_
  exact (hmem _ key).trans (triggered_iff.symm.trans ((triggered_perm h key).trans
    (triggered_iff.trans (hmem _ key).symm)))

/-! ### The cluster of a key -/

theorem membersOf_perm (h : events.Perm events') :
    (membersOf env events key).Perm (membersOf env events' key) :=
  h.filter _

theorem byTime_perm (members : List RawEvent) : (byTime members).Perm members :=
  mergeSort_perm _ _

theorem sortedSet_perm {texts texts' : List String} (h : texts.Perm texts') :
    sortedSet texts = sortedSet texts' :=
  mergeSort_le_congr h.dedup

theorem byTime_pairwise (members : List RawEvent) :
    (byTime members).Pairwise fun a b => a.timestampMillis ≤ b.timestampMillis := by
  exact (pairwise_mergeSort rank_trans rank_total members).imp fun h => of_decide_eq_true h

theorem mem_byTime : ev ∈ byTime (membersOf env events key) ↔
    ev ∈ events ∧ ev.Carries env key := by
  rw [(byTime_perm _).mem_iff]
  simp only [membersOf, mem_filter, decide_eq_true_eq, RawEvent.Carries]

theorem sourceOf_isSome :
    (sourceOf env events key).isSome = true ↔ ∃ ev, Sourced env events key ev := by
  unfold sourceOf Sourced
  rw [findSome?_isSome_iff]
  simp only [mem_byTime, and_assoc]

theorem earliest_of_sourceOf {source : String} (h : sourceOf env events key = some source) :
    ∃ ev, Sourced env events key ev ∧ nonempty ev.sourceId = some source ∧
      ∀ ev', Sourced env events key ev' → ev.timestampMillis ≤ ev'.timestampMillis := by
  obtain ⟨before, ev, after, hsplit, hsource, hbefore⟩ := findSome?_eq_some_iff.mp h
  obtain ⟨hev, hcarries⟩ := mem_byTime.mp (hsplit ▸ mem_append_right before mem_cons_self)
  refine ⟨ev, ⟨hev, hcarries, by rw [hsource]; rfl⟩, hsource, ?_⟩
  rintro ev' ⟨hev', hcarries', hsome⟩
  have hlater := mem_byTime.mpr ⟨hev', hcarries'⟩
  have hsorted := byTime_pairwise (membersOf env events key)
  rw [hsplit] at hlater hsorted
  rcases mem_append.mp hlater with hfirst | hrest
  · rw [hbefore ev' hfirst] at hsome
    cases hsome
  · rcases mem_cons.mp hrest with rfl | hrest
    · exact le_rfl
    · exact (pairwise_cons.mp (pairwise_append.mp hsorted).2.1).1 ev' hrest

theorem sourceOf_perm (h : events.Perm events') (hclear : SourceClear env events key) :
    sourceOf env events key = sourceOf env events' key := by
  have hsourced : ∀ ev, Sourced env events' key ev ↔ Sourced env events key ev := by
    intro ev
    unfold Sourced
    rw [h.mem_iff]
  have hsome : (sourceOf env events key).isSome = (sourceOf env events' key).isSome := by
    rw [Bool.eq_iff_iff, sourceOf_isSome, sourceOf_isSome]
    simp only [hsourced]
  cases hsource : sourceOf env events key with
  | none =>
    rw [hsource] at hsome
    exact (Option.isNone_iff_eq_none.mp (by simpa using hsome.symm)).symm
  | some source =>
    rw [hsource] at hsome
    obtain ⟨source', hsource'⟩ := Option.isSome_iff_exists.mp hsome.symm
    obtain ⟨a, ha, hasource, hamin⟩ := earliest_of_sourceOf hsource
    obtain ⟨b, hb, hbsource, hbmin⟩ := earliest_of_sourceOf hsource'
    have heq := hclear a b ha ((hsourced b).mp hb) hamin
      fun ev hev => hbmin ev ((hsourced ev).mpr hev)
    rw [hsource', ← hasource, ← hbsource, heq]

/-- **The clusters of a key** in two orders of a batch agree. -/
theorem agree_of_perm (h : events.Perm events')
    (hm : (triggers env prefs strategy alerts events).get? key = some m)
    (hm' : (triggers env prefs strategy alerts events').get? key = some m') :
    Agree env prefs strategy alerts events key
      (buildCluster env key (membersOf env events key) (some m))
      (buildCluster env key (membersOf env events' key) (some m')) := by
  obtain ⟨hcount, hprimary⟩ := triggers_perm h hm hm'
  have hrules : sortedSet ((membersOf env events key).filterMap fun ev => nonempty ev.rule) =
      sortedSet ((membersOf env events' key).filterMap fun ev => nonempty ev.rule) :=
    sortedSet_perm ((membersOf_perm h).filterMap _)
  refine ⟨⟨rfl, rfl, rfl⟩, fun ev => mem_buildCluster, ?_, congrArg some hcount, ?_, ?_⟩
  · exact (byTime_perm _).trans ((membersOf_perm h).trans (byTime_perm _).symm)
  · intro hclear
    exact congrArg (clusterSignature key) (sourceOf_perm h hclear)
  · intro hclear
    have hmeta := hprimary hclear
    subst hmeta
    unfold buildCluster
    dsimp only
    rw [hrules]

theorem forall₂_of_map_eq {α β κ : Type*} {f : α → κ} {g : β → κ} {R : α → β → Prop} :
    ∀ {l : List α} {l' : List β}, l.map f = l'.map g →
      (∀ a ∈ l, ∀ b ∈ l', f a = g b → R a b) → List.Forall₂ R l l' := by
  intro l
  induction l with
  | nil =>
    intro l' hmap _
    rw [map_eq_nil_iff.mp hmap.symm]
    exact .nil
  | cons a l ih =>
    intro l' hmap hR
    obtain ⟨b, l', rfl, hb, hl⟩ := map_eq_cons_iff.mp hmap.symm
    refine .cons (hR a mem_cons_self b mem_cons_self hb.symm) (ih hl.symm ?_)
    exact fun x hx y hy => hR x (mem_cons_of_mem _ hx) y (mem_cons_of_mem _ hy)

/-- **Correlation and the order of arrival**: two orders of a batch make clusters of the same keys,
in the same order, with the same members and the same observed count; with the same signature,
unless the earliest members that name a source disagree on it; and with the same trigger reason,
unless two rules tie for the highest count. -/
theorem correlate_perm (env : Env) (prefs : Preferences) (entityStrategy : Option EntityStrategy)
    (role : Option String) {events events' : List RawEvent} (h : events.Perm events') :
    List.Forall₂
      (fun c d => ∃ key, Agree env prefs (entityStrategy.getD prefs.entityStrategy)
        (batchIsAlerts env role) events key c d)
      (correlate env events prefs entityStrategy role)
      (correlate env events' prefs entityStrategy role) := by
  rw [correlate_eq, correlate_eq, List.forall₂_map_left_iff, List.forall₂_map_right_iff]
  refine forall₂_of_map_eq (sortedKeys_perm h) ?_
  rintro ⟨key, m⟩ he ⟨key', m'⟩ he' rfl
  have hget := Dict.get?_eq_some_iff.mpr ((List.mergeSort_perm _ _).mem_iff.mp he)
  have hget' := Dict.get?_eq_some_iff.mpr ((List.mergeSort_perm _ _).mem_iff.mp he')
  exact ⟨key, agree_of_perm h hget hget'⟩

def firstAlert : RawEvent :=
  { id := "a", indexRole := "alerts", ip := some "10.0.0.1", rule := some "r",
    sourceId := some "siem" }

def secondAlert : RawEvent :=
  { id := "b", indexRole := "alerts", ip := some "10.0.0.1", rule := some "s",
    sourceId := some "edr" }

/-- The two orders of the two alerts. -/
theorem correlate_perm_of_two : List.Forall₂
    (fun c d => ∃ key, Agree sampleEnv {} .auto false [firstAlert, secondAlert] key c d)
    (correlate sampleEnv [firstAlert, secondAlert] {} none none)
    (correlate sampleEnv [secondAlert, firstAlert] {} none none) :=
  correlate_perm sampleEnv {} none none (List.Perm.swap secondAlert firstAlert [])

theorem signature_of_first {a b : RawEvent} {c : Cluster}
    (h : a = firstAlert ∧ b = secondAlert ∨ a = secondAlert ∧ b = firstAlert)
    (hc : c ∈ correlate sampleEnv [a, b] {} none none) :
    c.signature = clusterSignature (.ip, "10.0.0.1") a.sourceId := by
  have hmembers : membersOf sampleEnv [a, b] (.ip, "10.0.0.1") = [a, b] := by
    rcases h with ⟨rfl, rfl⟩ | ⟨rfl, rfl⟩ <;> rfl
  have hsorted : byTime [a, b] = [a, b] := by
    refine mergeSort_of_pairwise ?_
    rcases h with ⟨rfl, rfl⟩ | ⟨rfl, rfl⟩ <;> simp [firstAlert, secondAlert]
  obtain ⟨key, m, hm, rfl⟩ := mem_correlate.mp hc
  obtain ⟨rule, -, hsome⟩ := triggered_iff.mpr ⟨m, hm⟩
  obtain ⟨ev, hev⟩ := exists_mem_of_ne_nil _ (ne_nil_of_windowDetail hsome)
  obtain ⟨hmem, rfl, hkey⟩ := mem_groupOf.mp hev
  have hresolved : ∀ ev ∈ [a, b], resolveEntity sampleEnv ev
      (({} : Preferences).config ev.bucket).groupBy .auto = some (.ip, "10.0.0.1") := by
    rcases h with ⟨rfl, rfl⟩ | ⟨rfl, rfl⟩
    · decide
    · decide
  obtain rfl := Option.some.inj (hkey.symm.trans (hresolved ev hmem))
  have hsource : sourceOf sampleEnv [a, b] (.ip, "10.0.0.1") = a.sourceId := by
    unfold sourceOf
    rw [hmembers, hsorted]
    rcases h with ⟨rfl, rfl⟩ | ⟨rfl, rfl⟩ <;> rfl
  exact congrArg (clusterSignature (.ip, "10.0.0.1")) hsource

set_option maxRecDepth 10000 in
/-- The primary rule and the signature of their cluster are those of the alert that arrived first.
-/
theorem first_alert_decides :
    (¬ ∀ env prefs entityStrategy role events events', events.Perm events' →
      (events.map RawEvent.eventKey).Nodup →
      (correlate env events prefs entityStrategy role).map (fun c =>
          c.triggerReason.map TriggerReason.ruleValue) =
        (correlate env events' prefs entityStrategy role).map (fun c =>
          c.triggerReason.map TriggerReason.ruleValue)) ∧
    ¬ ∀ env prefs entityStrategy role events events', events.Perm events' →
      (events.map RawEvent.eventKey).Nodup →
      (correlate env events prefs entityStrategy role).map Cluster.signature =
        (correlate env events' prefs entityStrategy role).map Cluster.signature := by
  have hswap : [firstAlert, secondAlert].Perm [secondAlert, firstAlert] := List.Perm.swap _ _ _
  have hnodup : ([firstAlert, secondAlert].map RawEvent.eventKey).Nodup := by decide
  refine ⟨fun hall => ?_, fun hall => ?_⟩
  · exact absurd (hall sampleEnv {} none none _ _ hswap hnodup) (by decide +kernel)
  · have hsame := hall sampleEnv {} none none _ _ hswap hnodup
    have hlen : (correlate sampleEnv [firstAlert, secondAlert] {} none none).length = 1 := by
      decide +kernel
    obtain ⟨c, hc⟩ := List.length_eq_one_iff.mp hlen
    have hmem : c ∈ correlate sampleEnv [firstAlert, secondAlert] {} none none := by
      rw [hc]
      exact List.mem_singleton_self c
    have hother := List.mem_map_of_mem (f := Cluster.signature) hmem
    rw [hsame] at hother
    obtain ⟨d, hd, heq⟩ := List.mem_map.mp hother
    rw [signature_of_first (.inl ⟨rfl, rfl⟩) hmem, signature_of_first (.inr ⟨rfl, rfl⟩) hd] at heq
    exact absurd heq (by decide)

end AgenticKibana.Correlation
