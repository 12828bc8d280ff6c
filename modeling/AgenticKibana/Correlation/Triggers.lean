import AgenticKibana.Correlation.Model

/-!
# Which keys trigger, and in which window

The loops of `correlate` in terms of the batch alone: the group of a rule and a key is a part of
the batch, a key triggers if one of its groups does, and the clusters are those of the keys that
triggered.  The sweep of `_window_detail` finds what a search through all intervals of that length
would find.
-/

namespace AgenticKibana.Correlation

open AgenticKibana.Library List

variable {env : Env} {prefs : Preferences} {strategy : EntityStrategy} {alerts : Bool}
  {events : List RawEvent} {ev : RawEvent} {key : EntityKey} {rule : String} {m : TriggerMeta}

def RawEvent.Carries (env : Env) (ev : RawEvent) (key : EntityKey) : Prop :=
  ev.entityValue env key.1 = some key.2

def groupOf (env : Env) (prefs : Preferences) (strategy : EntityStrategy) (events : List RawEvent)
    (rule : String) (key : EntityKey) : List RawEvent :=
  events.filter fun ev => ev.bucket = rule ∧
    resolveEntity env ev (prefs.config rule).groupBy strategy = some key

/-- A key triggers for a rule that is not suppressed, if the rule's events that resolve to it meet
the trigger they are judged by. -/
def TriggeredBy (env : Env) (prefs : Preferences) (strategy : EntityStrategy) (alerts : Bool)
    (events : List RawEvent) (rule : String) (key : EntityKey) : Prop :=
  (prefs.config rule).mode ≠ .never ∧
    (windowDetail (groupOf env prefs strategy events rule key)
      (effective alerts (prefs.config rule) (groupOf env prefs strategy events rule key))).isSome

def Triggered (env : Env) (prefs : Preferences) (strategy : EntityStrategy) (alerts : Bool)
    (events : List RawEvent) (key : EntityKey) : Prop :=
  ∃ rule, TriggeredBy env prefs strategy alerts events rule key

theorem carries_of_keyUnder {et : EntityType} (h : ev.keyUnder env et = some key) :
    ev.Carries env key := by
  obtain ⟨value, hvalue, rfl⟩ := Option.map_eq_some_iff.mp h
  exact hvalue

theorem carries_of_resolve {groupBy : EntityType}
    (h : resolveEntity env ev groupBy strategy = some key) : ev.Carries env key := by
  have hclimbed : strategy.ladder.findSome? (ev.keyUnder env) = some key → ev.Carries env key := by
    intro hfound
    obtain ⟨et, -, het⟩ := exists_of_findSome?_eq_some hfound
    exact carries_of_keyUnder het
  unfold resolveEntity at h
  dsimp only at h
  split at h
  · rcases Option.or_eq_some_iff.mp h with hprimary | ⟨-, hfound⟩
    · exact carries_of_keyUnder hprimary
    · exact hclimbed hfound
  · exact hclimbed h

theorem mem_groupOf : ev ∈ groupOf env prefs strategy events rule key ↔
    ev ∈ events ∧ ev.bucket = rule ∧
      resolveEntity env ev (prefs.config rule).groupBy strategy = some key := by
  simp only [groupOf, mem_filter, Bool.decide_and, Bool.and_eq_true, decide_eq_true_eq]

theorem windowDetail_nil (cfg : CorrelationRule) : windowDetail [] cfg = none := by
  simp [windowDetail]

variable {group : List RawEvent}

theorem sortedTimes_ne_nil (h : group ≠ []) :
    (group.map RawEvent.timestampMillis).mergeSort (· ≤ ·) ≠ [] := by
  intro hnil
  have hlen := (mergeSort_perm (group.map RawEvent.timestampMillis) (· ≤ ·)).length_eq
  rw [hnil, length_nil, length_map] at hlen
  exact h (length_eq_zero_iff.mp hlen.symm)

variable {cfg : CorrelationRule}

theorem windowDetail_every (h : group ≠ []) (hall : cfg.mode = .every ∨ cfg.n ≤ 1) :
    (windowDetail group cfg).isSome = true := by
  unfold windowDetail
  cases hsorted : (group.map RawEvent.timestampMillis).mergeSort (· ≤ ·) with
  | nil => exact absurd hsorted (sortedTimes_ne_nil h)
  | cons t times =>
    dsimp only
    rw [if_pos hall]
    rfl

theorem ne_nil_of_windowDetail (h : (windowDetail group cfg).isSome = true) : group ≠ [] := by
  rintro rfl
  rw [windowDetail_nil] at h
  cases h

theorem groupBy_bucket (events : List RawEvent) (rule : String) (key : EntityKey) :
    ((events.filter fun ev => (some ev.bucket : Option String) = some rule).filter fun ev =>
      resolveEntity env ev (prefs.config rule).groupBy strategy = some key) =
      groupOf env prefs strategy events rule key := by
  rw [List.filter_filter]
  refine filter_congr fun ev _ => ?_
  simp only [Option.some.injEq, Bool.decide_and]
  rw [Bool.and_comm]

/-- **What the loops collect**: what the group of a rule and a key triggers. -/
theorem mem_candidates : (key, m) ∈ candidates env prefs strategy alerts events ↔
    ∃ rule, (prefs.config rule).mode ≠ .never ∧
      groupMeta prefs alerts rule key (groupOf env prefs strategy events rule key) = some m := by
  unfold candidates
  rw [mem_flatMap]
  constructor
  · rintro ⟨⟨rule, ruleEvents⟩, hrule, hm⟩
    obtain ⟨rfl, -⟩ := Dict.mem_groupBy.mp hrule
    unfold ruleTriggers at hm
    dsimp only at hm
    split at hm
    · cases hm
    rename_i hmode
    obtain ⟨⟨key', group⟩, hgroup, hmeta⟩ := mem_filterMap.mp hm
    obtain ⟨rfl, -⟩ := Dict.mem_groupBy.mp hgroup
    obtain ⟨m', hm', heq⟩ := Option.map_eq_some_iff.mp hmeta
    cases heq
    rw [groupBy_bucket] at hm'
    exact ⟨rule, hmode, hm'⟩
  · rintro ⟨rule, hmode, hm⟩
    have hne : groupOf env prefs strategy events rule key ≠ [] := by
      obtain ⟨detail, hdetail, -⟩ := Option.map_eq_some_iff.mp hm
      exact ne_nil_of_windowDetail (Option.isSome_iff_exists.mpr ⟨detail, hdetail⟩)
    refine ⟨(rule, events.filter fun ev => (some ev.bucket : Option String) = some rule),
      Dict.mem_groupBy.mpr ⟨rfl, ?_⟩, ?_⟩
    · intro hnil
      rw [← groupBy_bucket, hnil] at hne
      exact hne rfl
    · unfold ruleTriggers
      dsimp only
      rw [if_neg hmode]
      refine mem_filterMap.mpr ⟨(key, groupOf env prefs strategy events rule key),
        Dict.mem_groupBy.mpr ⟨(groupBy_bucket _ _ _).symm, hne⟩, ?_⟩
      dsimp only
      rw [hm]
      rfl

theorem triggered_iff : Triggered env prefs strategy alerts events key ↔
    ∃ m, (triggers env prefs strategy alerts events).get? key = some m := by
  rw [← Option.isSome_iff_exists]
  unfold triggers
  rw [Dict.keepBest_isSome]
  constructor
  · rintro ⟨rule, hmode, hsome⟩
    have hmeta : (groupMeta prefs alerts rule key
        (groupOf env prefs strategy events rule key)).isSome = true := by
      unfold groupMeta
      rw [Option.isSome_map]
      exact hsome
    obtain ⟨m, hm⟩ := Option.isSome_iff_exists.mp hmeta
    exact ⟨m, mem_candidates.mpr ⟨rule, hmode, hm⟩⟩
  · rintro ⟨m, hm⟩
    obtain ⟨rule, hmode, hmeta⟩ := mem_candidates.mp hm
    obtain ⟨detail, hdetail, -⟩ := Option.map_eq_some_iff.mp hmeta
    exact ⟨rule, hmode, Option.isSome_iff_exists.mpr ⟨detail, hdetail⟩⟩

theorem members_of_triggered (h : Triggered env prefs strategy alerts events key) :
    membersOf env events key ≠ [] := by
  obtain ⟨rule, -, hsome⟩ := h
  obtain ⟨ev, hev⟩ := exists_mem_of_ne_nil _ (ne_nil_of_windowDetail hsome)
  obtain ⟨hmem, -, hkey⟩ := mem_groupOf.mp hev
  refine ne_nil_of_mem (mem_filter.mpr ⟨hmem, ?_⟩)
  exact decide_eq_true (carries_of_resolve hkey)

theorem mem_buildCluster {triggerMeta : Option TriggerMeta} :
    ev ∈ (buildCluster env key (membersOf env events key) triggerMeta).memberEvents ↔
      ev ∈ events ∧ ev.Carries env key := by
  have hperm := mergeSort_perm (membersOf env events key)
    fun a b => a.timestampMillis ≤ b.timestampMillis
  refine hperm.mem_iff.trans ?_
  simp only [membersOf, mem_filter, decide_eq_true_eq, RawEvent.Carries]

/-- **The clusters are those of the keys that triggered**, in the order of the keys. -/
theorem correlate_eq (entityStrategy : Option EntityStrategy) (role : Option String) :
    correlate env events prefs entityStrategy role =
      ((triggers env prefs (entityStrategy.getD prefs.entityStrategy) (batchIsAlerts env role)
        events).entries.mergeSort fun a b => keyLe a.1 b.1).map fun e =>
          buildCluster env e.1 (membersOf env events e.1) (some e.2) := by
  unfold correlate
  dsimp only
  refine filterMap_eq_map_iff_forall_eq_some.mpr fun e he => ?_
  have hmem := (mergeSort_perm _ _).mem_iff.mp he
  have htriggered := triggered_iff.mpr ⟨e.2, Dict.get?_eq_some_iff.mpr hmem⟩
  unfold clusterOf
  dsimp only
  rw [if_neg (members_of_triggered htriggered)]

theorem mem_correlate {entityStrategy : Option EntityStrategy} {role : Option String}
    {c : Cluster} :
    c ∈ correlate env events prefs entityStrategy role ↔
      ∃ key m, (triggers env prefs (entityStrategy.getD prefs.entityStrategy)
        (batchIsAlerts env role)
        events).get? key = some m ∧
          c = buildCluster env key (membersOf env events key) (some m) := by
  rw [correlate_eq, List.mem_map]
  constructor
  · rintro ⟨⟨key, m⟩, he, rfl⟩
    exact ⟨key, m, Dict.get?_eq_some_iff.mpr ((mergeSort_perm _ _).mem_iff.mp he), rfl⟩
  · rintro ⟨key, m, hm, rfl⟩
    exact ⟨(key, m), (mergeSort_perm _ _).mem_iff.mpr (Dict.get?_eq_some_iff.mp hm), rfl⟩

/-! ### The densest window -/

def countIn (times : List Int) (a b : Int) : Nat := times.countP fun t => a ≤ t ∧ t ≤ b

def Stretch (times : List Int) (span a b : Int) : Prop := a ∈ times ∧ b ∈ times ∧ b - a ≤ span

structure Densest (times : List Int) (span : Int) (d : WindowDetail) : Prop where
  stretch : Stretch times span d.windowStart d.windowEnd
  count : countIn times d.windowStart d.windowEnd = d.observedCount
  most : ∀ a b, Stretch times span a b → countIn times a b ≤ d.observedCount
  earliest : ∀ a b, Stretch times span a b → countIn times a b = d.observedCount →
    d.windowStart ≤ a ∧ d.windowEnd ≤ b

structure Swept (n : Nat) (span : Int) (p : List Int) (best : Option WindowDetail) : Prop where
  few : best = none → ∀ a b, Stretch p span a b → countIn p a b < n
  dense : ∀ d ∈ best, n ≤ d.observedCount ∧ Densest p span d

section Sweep

variable {n : Nat} {span : Int} {p times : List Int} {t : Int} {best : Option WindowDetail}

theorem dropWhile_eq_filter {l : List Int} (h : l.Pairwise (· ≤ ·)) (t : Int) :
    (l.dropWhile fun s => span < t - s) = l.filter fun s => t - s ≤ span := by
  induction l with
  | nil => rfl
  | cons s l ih =>
    obtain ⟨hle, hl⟩ := pairwise_cons.mp h
    by_cases hs : span < t - s
    · have hfar : ¬ t - s ≤ span := by omega
      simp only [dropWhile_cons, filter_cons, decide_eq_true_eq, if_pos hs, if_neg hfar]
      exact ih hl
    · simp only [dropWhile_cons, decide_eq_true_eq, if_neg hs]
      rw [eq_comm, filter_eq_self]
      intro x hx
      have hnear : s ≤ x := by
        rcases mem_cons.mp hx with rfl | hx
        · exact le_rfl
        · exact hle x hx
      simp only [decide_eq_true_eq]
      omega

/-- The times up to `t` that are in the window which ends there. -/
def windowAt (p : List Int) (span t : Int) : List Int := (p ++ [t]).filter fun s => t - s ≤ span

theorem windowAt_cons (hspan : 0 ≤ span) (hsorted : (p ++ [t]).Pairwise (· ≤ ·)) :
    ∃ first, (∃ rest, windowAt p span t = first :: rest) ∧ first ∈ p ++ [t] ∧ t - first ≤ span ∧
      ∀ x ∈ p ++ [t], t - x ≤ span → first ≤ x := by
  have ht : t ∈ windowAt p span t := mem_filter.mpr ⟨by simp, by simpa using hspan⟩
  obtain ⟨first, rest, hcons⟩ := exists_cons_of_ne_nil (ne_nil_of_mem ht)
  have hfirst : first ∈ windowAt p span t := by rw [hcons]; exact mem_cons_self
  obtain ⟨hmem, hnear⟩ := mem_filter.mp hfirst
  refine ⟨first, ⟨rest, hcons⟩, hmem, by simpa using hnear, fun x hx hxt => ?_⟩
  have hx' : x ∈ windowAt p span t := mem_filter.mpr ⟨hx, by simpa using hxt⟩
  have hle : (windowAt p span t).Pairwise (· ≤ ·) := hsorted.filter _
  rw [hcons] at hx' hle
  rcases mem_cons.mp hx' with rfl | hx'
  · exact le_rfl
  · exact (pairwise_cons.mp hle).1 x hx'

theorem countIn_snoc (a b : Int) : countIn (p ++ [t]) a b =
    countIn p a b + if a ≤ t ∧ t ≤ b then 1 else 0 := by
  simp [countIn, countP_append, countP_singleton]

variable {a : Int}

theorem countIn_split {b c : Int} (hac : a ≤ c) (hcb : c ≤ b) :
    countIn p a b = countIn p a (c - 1) + countIn p c b := by
  induction p with
  | nil => rfl
  | cons x p ih =>
    simp only [countIn, countP_cons, decide_eq_true_eq] at ih ⊢
    rw [ih]
    split_ifs <;> omega

theorem countIn_le_window (a : Int) (ha : t - a ≤ span) :
    countIn (p ++ [t]) a t ≤ (windowAt p span t).length := by
  rw [windowAt, ← countP_eq_length_filter]
  refine countP_mono_left fun x _ hx => ?_
  simp only [decide_eq_true_eq] at hx ⊢
  omega

theorem countIn_window (hle : ∀ x ∈ p ++ [t], x ≤ t)
    (hfirst : ∀ x ∈ p ++ [t], t - x ≤ span → a ≤ x) :
    (windowAt p span t).length ≤ countIn (p ++ [t]) a t := by
  rw [windowAt, ← countP_eq_length_filter]
  refine countP_mono_left fun x hx hnear => ?_
  simp only [decide_eq_true_eq] at hnear ⊢
  exact ⟨hfirst x hx hnear, hle x hx⟩

/-- An interval of the longer list that does not end at its last time is one of the shorter. -/
theorem Stretch.cases_snoc {b : Int} (h : Stretch (p ++ [t]) span a b)
    (hle : ∀ x ∈ p ++ [t], x ≤ t) : b = t ∨ countIn (p ++ [t]) a b = 0 ∨
      b < t ∧ Stretch p span a b ∧ countIn (p ++ [t]) a b = countIn p a b := by
  obtain ⟨ha, hb, hnear⟩ := h
  have hbt := hle b hb
  rcases eq_or_lt_of_le hbt with rfl | hlt
  · exact .inl rfl
  · right
    by_cases hab : a ≤ b
    · right
      have hshort : ∀ x ∈ p ++ [t], x < t → x ∈ p := by
        intro x hx hxt
        rcases mem_append.mp hx with hx | hx
        · exact hx
        · simp only [mem_singleton] at hx
          omega
      refine ⟨hlt, ⟨hshort a ha (by omega), hshort b hb hlt, hnear⟩, ?_⟩
      rw [countIn_snoc, if_neg (by omega)]
      rfl
    · left
      refine countP_eq_zero.mpr fun x _ hx => ?_
      simp only [decide_eq_true_eq] at hx
      omega

theorem Swept.step (h : Swept n span p best) (hn : 2 ≤ n) (hspan : 0 ≤ span)
    (hsorted : (p ++ [t]).Pairwise (· ≤ ·)) :
    Swept n span (p ++ [t])
      (if n ≤ (windowAt p span t).length &&
          best.all fun b => b.observedCount < (windowAt p span t).length then
        some ⟨(windowAt p span t).length, (windowAt p span t).headD t, t⟩ else best) := by
  have hle : ∀ x ∈ p ++ [t], x ≤ t := by
    intro x hx
    rcases mem_append.mp hx with hx | hx
    · exact (pairwise_append.mp hsorted).2.2 x hx t mem_cons_self
    · exact (mem_singleton.mp hx).le
  obtain ⟨first, ⟨rest, hcons⟩, hmem, hnear, hleast⟩ := windowAt_cons hspan hsorted
  have hhead : (windowAt p span t).headD t = first := by rw [hcons]; rfl
  have hfull : countIn (p ++ [t]) first t = (windowAt p span t).length :=
    le_antisymm (countIn_le_window first hnear) (countIn_window hle hleast)
  rw [hhead]
  generalize hk : (windowAt p span t).length = k at *
  have hends : ∀ a, Stretch (p ++ [t]) span a t → countIn (p ++ [t]) a t ≤ k :=
    fun a ha => hk ▸ countIn_le_window a ha.2.2
  split
  · next hbetter =>
    simp only [Bool.and_eq_true, decide_eq_true_eq, Option.all_eq_true] at hbetter
    obtain ⟨henough, hmore⟩ := hbetter
    have hbefore : ∀ a b, Stretch p span a b → countIn p a b < k := by
      intro a b hab
      cases hbest : best with
      | none => exact (h.few hbest a b hab).trans_le henough
      | some d => exact ((h.dense d hbest).2.most a b hab).trans_lt (hmore d hbest)
    refine ⟨fun hnone => (by cases hnone), fun d hd => ?_⟩
    obtain rfl := Option.some.inj hd
    refine ⟨henough, ⟨hmem, by simp, hnear⟩, hfull, fun a b hab => ?_, fun a b hab heq => ?_⟩
    · rcases hab.cases_snoc hle with rfl | hzero | ⟨-, hshort, hsame⟩
      · exact hends a hab
      · exact hzero ▸ Nat.zero_le _
      · exact hsame ▸ (hbefore a b hshort).le
    · rcases hab.cases_snoc hle with rfl | hzero | ⟨-, hshort, hsame⟩
      · exact ⟨hleast a hab.1 hab.2.2, le_rfl⟩
      · have : countIn (p ++ [t]) a b = k := heq
        omega
      · have := hbefore a b hshort
        have : countIn (p ++ [t]) a b = k := heq
        omega
  · next hbetter =>
    have hlow : k < n ∨ ∃ d, best = some d ∧ k ≤ d.observedCount := by
      cases best with
      | none =>
        refine .inl (not_le.mp fun henough => hbetter ?_)
        simp [henough]
      | some d =>
        by_cases hmore : d.observedCount < k
        · refine .inl (not_le.mp fun henough => hbetter ?_)
          simp [henough, hmore]
        · exact .inr ⟨d, rfl, not_lt.mp hmore⟩
    refine ⟨fun hnone a b hab => ?_, fun d hd => ?_⟩
    · have hfew : k < n := hlow.resolve_right fun ⟨d, hd, _⟩ => by simp [hnone] at hd
      rcases hab.cases_snoc hle with rfl | hzero | ⟨-, hshort, hsame⟩
      · exact (hends a hab).trans_lt hfew
      · omega
      · exact hsame ▸ h.few hnone a b hshort
    · obtain ⟨henough, hdense⟩ := h.dense d hd
      have hless : k ≤ d.observedCount := by
        rcases hlow with hk | ⟨e, he, hk⟩
        · omega
        · rw [Option.mem_def.mp hd] at he
          exact Option.some.inj he ▸ hk
      obtain ⟨hstart, hstop, hfits⟩ := hdense.stretch
      have hlong := fun x (hx : x ∈ p) => mem_append_left [t] hx
      have hpositive : d.windowStart ≤ d.windowEnd := by
        by_contra hgt
        have hnone : countIn p d.windowStart d.windowEnd = 0 := by
          refine countP_eq_zero.mpr fun x _ hx => ?_
          simp only [decide_eq_true_eq] at hx
          omega
        have := hdense.count
        omega
      -- were its last time seen again, the window at that time would hold one event more
      have hbefore : d.windowEnd < t := by
        refine lt_of_le_of_ne (hle _ (hlong _ hstop)) fun hsame => ?_
        have hends' := hends d.windowStart ⟨hlong _ hstart, by simp, by omega⟩
        rw [countIn_snoc, if_pos ⟨by omega, le_rfl⟩, ← hsame, hdense.count] at hends'
        omega
      refine ⟨henough, ⟨hlong _ hstart, hlong _ hstop, hfits⟩, ?_, fun a b hab => ?_,
        fun a b hab heq => ?_⟩
      · rw [countIn_snoc, if_neg (by omega), hdense.count]
        rfl
      · rcases hab.cases_snoc hle with rfl | hzero | ⟨-, hshort, hsame⟩
        · exact (hends a hab).trans hless
        · omega
        · exact hsame ▸ hdense.most a b hshort
      · rcases hab.cases_snoc hle with rfl | hzero | ⟨-, hshort, hsame⟩
        · refine ⟨?_, hbefore.le⟩
          by_contra hearly
          have ha : a ∈ p := by
            rcases mem_append.mp hab.1 with ha | ha
            · exact ha
            · have := hle _ (hlong _ hstart)
              simp only [mem_singleton] at ha
              omega
          have hmost := hdense.most a d.windowEnd ⟨ha, hstop, by have := hab.2.2; omega⟩
          have hsplit := @countIn_split p a d.windowEnd d.windowStart (by omega) hpositive
          have hmore : 0 < countIn p a (d.windowStart - 1) :=
            countP_pos_iff.mpr ⟨a, ha, by simp only [decide_eq_true_eq]; omega⟩
          have := hdense.count
          omega
        · omega
        · exact hdense.earliest a b hshort (hsame ▸ heq)

theorem swept_nil : Swept n span [] none where
  few _ _ _ hab := absurd hab.1 not_mem_nil
  dense _ hd := by cases hd

theorem swept_densest (hn : 2 ≤ n) (hspan : 0 ≤ span) {window : List Int}
    (hsorted : (p ++ times).Pairwise (· ≤ ·)) (h : Swept n span p best)
    (hwindow : ∀ t ∈ times, (window ++ [t]).dropWhile (fun s => span < t - s) = windowAt p span t) :
    Swept n span (p ++ times) (densest n span window times best) := by
  induction times generalizing p window best with
  | nil => simpa [densest] using h
  | cons t times ih =>
    rw [append_cons] at hsorted ⊢
    have hstep := h.step hn hspan (pairwise_append.mp hsorted).1
    unfold densest
    dsimp only
    rw [hwindow t mem_cons_self]
    refine ih hsorted hstep fun u hu => ?_
    have hpast : (p ++ [t] ++ [u]).Pairwise (· ≤ ·) :=
      hsorted.sublist ((singleton_sublist.mpr hu).append_left _)
    have htu : t ≤ u := (pairwise_append.mp hsorted).2.2 t (by simp) u hu
    have hkept : (windowAt p span t ++ [u]).Pairwise (· ≤ ·) :=
      hpast.sublist ((filter_sublist).append_right _)
    have hright : windowAt (p ++ [t]) span u = ((p ++ [t]).filter fun s => u - s ≤ span) ++
        [u].filter fun s => u - s ≤ span := filter_append ..
    rw [dropWhile_eq_filter hkept, filter_append, hright, windowAt, filter_filter]
    congr 1
    refine filter_congr fun x _ => ?_
    have : t - x ≤ u - x := by omega
    by_cases hx : u - x ≤ span
    · simp [hx, this.trans hx]
    · simp [hx]

end Sweep

/-- How many events the closed interval from `a` of the window's length holds. -/
def heldFrom (events : List RawEvent) (cfg : CorrelationRule) (a : Int) : Nat :=
  countIn (events.map RawEvent.timestampMillis) a (a + cfg.windowSeconds * 1000)

variable {times : List Int} {span : Int}

theorem stretch_of_held {a : Int} (h : 0 < countIn times a (a + span)) :
    ∃ s e, Stretch times span s e ∧ countIn times a (a + span) ≤ countIn times s e := by
  let held := times.toFinset.filter fun t => a ≤ t ∧ t ≤ a + span
  have hmem : ∀ t, t ∈ held ↔ t ∈ times ∧ a ≤ t ∧ t ≤ a + span := by
    intro t
    simp [held]
  obtain ⟨t, ht, hin⟩ := countP_pos_iff.mp h
  have hne : held.Nonempty := ⟨t, (hmem t).mpr ⟨ht, of_decide_eq_true hin⟩⟩
  obtain ⟨s, hs, hleast⟩ := held.exists_min_image id hne
  obtain ⟨e, he, hgreatest⟩ := held.exists_max_image id hne
  obtain ⟨hst, hsa⟩ := (hmem s).mp hs
  obtain ⟨het, hea⟩ := (hmem e).mp he
  refine ⟨s, e, ⟨hst, het, by omega⟩, countP_mono_left fun x hx hxa => ?_⟩
  have hheld := (hmem x).mpr ⟨hx, of_decide_eq_true hxa⟩
  exact decide_eq_true ⟨hleast x hheld, hgreatest x hheld⟩

theorem countIn_le_held {s e : Int} (h : e - s ≤ span) :
    countIn times s e ≤ countIn times s (s + span) := by
  refine countP_mono_left fun x _ hx => ?_
  simp only [decide_eq_true_eq] at hx ⊢
  omega

theorem Densest.perm {times' : List Int} {d : WindowDetail} (h : Densest times span d)
    (hperm : times.Perm times') : Densest times' span d := by
  have hcount : ∀ a b, countIn times' a b = countIn times a b := fun a b => (hperm.countP_eq _).symm
  have hstretch : ∀ a b, Stretch times' span a b ↔ Stretch times span a b := by
    intro a b
    simp only [Stretch, hperm.mem_iff]
  constructor
  · exact (hstretch _ _).mpr h.stretch
  · rw [hcount]
    exact h.count
  · intro a b hab
    rw [hcount]
    exact h.most a b ((hstretch a b).mp hab)
  · intro a b hab
    rw [hcount]
    exact h.earliest a b ((hstretch a b).mp hab)

theorem swept_windowDetail (hmode : cfg.mode = .threshold) (hn : 2 ≤ cfg.n) :
    (windowDetail events cfg = none → ∀ a, heldFrom events cfg a < cfg.n) ∧
      ∀ d, windowDetail events cfg = some d → cfg.n ≤ d.observedCount ∧
        Densest (events.map RawEvent.timestampMillis) (cfg.windowSeconds * 1000) d := by
  have hperm := mergeSort_perm (events.map RawEvent.timestampMillis) (· ≤ ·)
  have hsorted := pairwise_mergeSort' (α := Int) (· ≤ ·) (events.map RawEvent.timestampMillis)
  have hheld : ∀ a, heldFrom events cfg a ≤ events.length := by
    intro a
    refine countP_le_length.trans ?_
    rw [length_map]
  unfold windowDetail
  generalize hlist : (events.map RawEvent.timestampMillis).mergeSort (· ≤ ·) = times at *
  cases times with
  | nil =>
    refine ⟨fun _ a => ?_, fun d hd => (by cases hd)⟩
    have hempty : heldFrom events cfg a = 0 := (hperm.countP_eq _).symm
    omega
  | cons t times =>
    dsimp only
    rw [if_neg (by simp [hmode]; omega)]
    split
    · next hfew => exact ⟨fun _ a => (hheld a).trans_lt hfew, fun d hd => by cases hd⟩
    · have hspan : (0 : Int) ≤ cfg.windowSeconds * 1000 := by omega
      have hswept := @swept_densest _ _ [] _ _ hn hspan [] hsorted swept_nil
        fun u _ => dropWhile_eq_filter (pairwise_singleton _ u) u
      refine ⟨fun hnone a => ?_, fun d hd => ?_⟩
      · by_contra hmany
        have hcount : countIn (t :: times) a (a + cfg.windowSeconds * 1000) =
          heldFrom events cfg a :=
          hperm.countP_eq _
        obtain ⟨s, e, hse, hle⟩ := stretch_of_held (by rw [hcount]; omega)
        have hfew := hswept.few hnone s e hse
        rw [nil_append] at hfew
        omega
      · obtain ⟨henough, hdense⟩ := hswept.dense d hd
        exact ⟨henough, hdense.perm hperm⟩

theorem observed_le_held {d : WindowDetail} (hmode : cfg.mode = .threshold) (hn : 2 ≤ cfg.n)
    (h : windowDetail events cfg = some d) :
    d.observedCount ≤ heldFrom events cfg d.windowStart := by
  have hdense := ((swept_windowDetail hmode hn).2 d h).2
  exact hdense.count ▸ countIn_le_held hdense.stretch.2.2

theorem windowDetail_eq_none (hmode : cfg.mode = .threshold) (hn : 2 ≤ cfg.n) :
    windowDetail events cfg = none ↔ ∀ a, heldFrom events cfg a < cfg.n := by
  obtain ⟨hnone, hsome⟩ := @swept_windowDetail events cfg hmode hn
  refine ⟨hnone, fun hfew => ?_⟩
  cases hwindow : windowDetail events cfg with
  | none => rfl
  | some d =>
    have := hfew d.windowStart
    have := observed_le_held hmode hn hwindow
    have := (hsome d hwindow).1
    omega

/-- **The sweep finds the densest window**: it reports none exactly where no interval of the
window's length holds `n` events, and otherwise the most that any holds, in the earliest place. -/
theorem windowDetail_densest {events : List RawEvent} {cfg : CorrelationRule}
    (hmode : cfg.mode = .threshold) (hn : 2 ≤ cfg.n) :
    (windowDetail events cfg = none ↔ ∀ a, heldFrom events cfg a < cfg.n) ∧
      ∀ d, windowDetail events cfg = some d →
        (∀ a, heldFrom events cfg a ≤ d.observedCount) ∧
        (∃ a, heldFrom events cfg a = d.observedCount) ∧
        Densest (events.map RawEvent.timestampMillis) (cfg.windowSeconds * 1000) d := by
  refine ⟨windowDetail_eq_none hmode hn, fun d hd => ?_⟩
  have hdense := ((swept_windowDetail hmode hn).2 d hd).2
  have hmost : ∀ a, heldFrom events cfg a ≤ d.observedCount := by
    intro a
    rcases Nat.eq_zero_or_pos (heldFrom events cfg a) with hzero | hpos
    · exact hzero ▸ Nat.zero_le _
    · obtain ⟨s, e, hse, hle⟩ := stretch_of_held hpos
      exact hle.trans (hdense.most s e hse)
  exact ⟨hmost, ⟨_, le_antisymm (hmost _) (observed_le_held hmode hn hd)⟩, hdense⟩

def burst : List RawEvent :=
  [{ id := "a" }, { id := "b", timestampMillis := 60000 }, { id := "c", timestampMillis := 900000 }]

theorem burst_densest :
    (windowDetail burst { n := 2, windowSeconds := 60 } = none ↔
      ∀ a, heldFrom burst { n := 2, windowSeconds := 60 } a < 2) ∧
    ∀ d, windowDetail burst { n := 2, windowSeconds := 60 } = some d →
      (∀ a, heldFrom burst { n := 2, windowSeconds := 60 } a ≤ d.observedCount) ∧
      (∃ a, heldFrom burst { n := 2, windowSeconds := 60 } a = d.observedCount) ∧
      Densest (burst.map RawEvent.timestampMillis) ((60 : Nat) * 1000) d :=
  windowDetail_densest rfl le_rfl

/-! ### What sets off a key -/

/-- An event sets off the key that it resolves to: its rule is not suppressed, and the batch or an
event beside it is an alert, or the rule takes every event, or enough of them come in its window. -/
def SetsOff (env : Env) (prefs : Preferences) (strategy : EntityStrategy) (alerts : Bool)
    (events : List RawEvent) (ev : RawEvent) (key : EntityKey) : Prop :=
  let cfg := prefs.config ev.bucket
  let beside := groupOf env prefs strategy events ev.bucket key
  ev ∈ beside ∧ cfg.mode ≠ .never ∧ (alerts = true ∨ (∃ e ∈ beside, e.isAlert = true) ∨
    cfg.mode = .every ∨ cfg.n ≤ 1 ∨ ∃ a, cfg.n ≤ heldFrom beside cfg a)

theorem windowDetail_isSome (hne : group ≠ []) (hmode : cfg.mode ≠ .never) :
    (windowDetail group cfg).isSome = true ↔
      cfg.mode = .every ∨ cfg.n ≤ 1 ∨ ∃ a, cfg.n ≤ heldFrom group cfg a := by
  by_cases hall : cfg.mode = .every ∨ cfg.n ≤ 1
  · exact iff_of_true (windowDetail_every hne hall) (hall.imp_right .inl)
  · rw [not_or] at hall
    have hthreshold : cfg.mode = .threshold := by
      cases h : cfg.mode with
      | threshold => rfl
      | every => exact absurd h hall.1
      | never => exact absurd h hmode
    have hnone := @windowDetail_eq_none group cfg hthreshold (by omega)
    rw [← Option.ne_none_iff_isSome, Ne, hnone]
    simp [hall]

/-- **A key triggers if some event sets it off.** -/
theorem triggered_iff_setsOff : Triggered env prefs strategy alerts events key ↔
    ∃ ev, SetsOff env prefs strategy alerts events ev key := by
  have heffective : ∀ rule, let group := groupOf env prefs strategy events rule key
      group ≠ [] → (prefs.config rule).mode ≠ .never →
        ((windowDetail group (effective alerts (prefs.config rule) group)).isSome = true ↔
          alerts = true ∨ (∃ e ∈ group, e.isAlert = true) ∨ (prefs.config rule).mode = .every ∨
            (prefs.config rule).n ≤ 1 ∨ ∃ a, (prefs.config rule).n ≤
              heldFrom group (prefs.config rule) a) := by
    intro rule group hne hmode
    unfold effective
    by_cases hany : (alerts || group.any RawEvent.isAlert) = true
    · rw [if_pos hany]
      rw [Bool.or_eq_true, List.any_eq_true] at hany
      refine iff_of_true (windowDetail_every hne (.inl rfl)) ?_
      exact hany.imp_right .inl
    · rw [if_neg hany, windowDetail_isSome hne hmode]
      rw [Bool.or_eq_true, List.any_eq_true, not_or] at hany
      simp [hany.1, hany.2]
  constructor
  · rintro ⟨rule, hmode, hsome⟩
    have hne := ne_nil_of_windowDetail hsome
    obtain ⟨ev, hev⟩ := exists_mem_of_ne_nil _ hne
    obtain ⟨-, rfl, -⟩ := mem_groupOf.mp hev
    exact ⟨ev, hev, hmode, (heffective _ hne hmode).mp hsome⟩
  · rintro ⟨ev, hev, hmode, hjudged⟩
    exact ⟨ev.bucket, hmode, (heffective _ (ne_nil_of_mem hev) hmode).mpr hjudged⟩

theorem setsOff_of_alert (hev : ev ∈ events) (halert : alerts = true ∨ ev.isAlert = true)
    (hmode : (prefs.config ev.bucket).mode ≠ .never)
    (hkey : resolveEntity env ev (prefs.config ev.bucket).groupBy strategy = some key) :
    SetsOff env prefs strategy alerts events ev key := by
  have hmem := mem_groupOf.mpr ⟨hev, rfl, hkey⟩
  exact ⟨hmem, hmode, halert.imp_right fun h => .inl ⟨ev, hmem, h⟩⟩

end AgenticKibana.Correlation
