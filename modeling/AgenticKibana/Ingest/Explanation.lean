import AgenticKibana.Ingest.Allowance

/-!
# The narrator of the gates

`explain_forwarding` walks over the gates of `handle_clusters` once more, in a file of its own with
mirrors of its own.  The mirrors are the gates, so what it says of a cluster is what a call does
with it, as long as there is an allowance and the case of the cluster has no verdict yet.
-/

namespace AgenticKibana.Ingest.Forwarding

open AgenticKibana.Library AgenticKibana.Correlation AgenticKibana.Poll List

inductive Gate where
  | ignored
  | suppressed
  | backgroundScan
  | severityFloor
  | autoCorrelate
  | riskFloor
  | forwarded
deriving DecidableEq

/-- `ForwardingExplanation`. -/
structure Explanation where
  gate : Gate
  forwarded : Bool
  dropped : Bool
  sentence : String
  sourceId : Option String
  isAlert : Bool
  notes : List String

section Mirrors

variable (site : IngestSite) (cluster : Cluster) (prefs : IngestPreferences)

def sourceFor : Option IngestSource :=
  if cluster.sourceId = none ∨ cluster.sourceId = some "" then none
  else prefs.sources.find? fun s => cluster.sourceId = some s.id

def longestMatch (index : String) (best : Option IngestFeed × Int) (f : IngestFeed) :
    Option IngestFeed × Int :=
  if f.pattern ≠ "" ∧ index ≠ "" ∧ fnmatch index f.pattern = true ∧ best.2 < f.pattern.length then
    (some f, f.pattern.length)
  else best

/-- `_feed_for_event`; of the feeds with one id the dict keeps the last. -/
def feedForEvent (ev : RawEvent) (feeds : List IngestFeed) : Option IngestFeed :=
  match if ev.feedId = "" then none else feeds.reverse.find? fun f => f.id = ev.feedId with
  | some feed => some feed
  | none => (feeds.foldl (longestMatch ev.index) (none, -1)).1

def isIgnored : Bool :=
  match sourceFor cluster prefs with
  | none => false
  | some src =>
    if (src.feeds.filter fun f => f.role = .ignore).isEmpty then false
    else if cluster.memberEvents.isEmpty then false
    else cluster.memberEvents.all fun ev =>
      match feedForEvent ev src.feeds with
      | none => false
      | some feed => feed.role = .ignore

def passesSuppression : Bool :=
  let rules := prefs.suppressionRules.filter SuppressionRule.live
  if rules.isEmpty then true
  else !cluster.memberEvents.all fun ev =>
    rules.any fun r => site.str (dottedGet ev.source r.field) == r.value

def autoCorrelateAllowed : Bool :=
  match sourceFor cluster prefs with
  | none => true
  | some src =>
    if !src.autoCorrelate site then false
    else if src.feeds.isEmpty then true
    else !cluster.memberEvents.any fun ev =>
      match feedForEvent ev src.feeds with
      | none => false
      | some feed => !feed.effectiveAutoInvestigate

def onAllowlist : Bool :=
  if cluster.isAlert then true
  else if prefs.autoForwardAllowlist.contains "*" then true
  else cluster.ruleValues.any fun r => prefs.autoForwardAllowlist.contains r

/-- `int(routing_score)`. -/
def shownScore : String :=
  toString ((site.routingScore cluster prefs).num.tdiv (site.routingScore cluster prefs).den)

def why : String :=
  if cluster.isAlert then "it is an alerts-role SIEM detection"
  else if onAllowlist cluster prefs then "its rules are on the auto-forward allowlist"
  else "its available-signal routing score " ++ shownScore site cluster prefs ++
    " reaches the configured floor " ++ toString prefs.autoInvestigateRiskFloor

def decidingGate : Gate × String :=
  if isIgnored cluster prefs then
    (.ignored, "Dropped: every member event belongs to an IGNORE feed (muted at ingest).")
  else if !passesSuppression site cluster prefs then
    (.suppressed, "Dropped: every member event matches a live suppression rule.")
  else if !prefs.backgroundScanEnabled then
    (.backgroundScan, "Registered as a candidate for manual triage: automated background " ++
      "investigation is disabled (background_scan_enabled is off).")
  else if !cluster.autoInvestigateEligible then
    (.severityFloor, "Registered as a candidate: every member event is below its feed's " ++
      "severity_floor, so the cluster is not auto-forwarded (but is still " ++
      "correlated and never dropped).")
  else if !autoCorrelateAllowed site cluster prefs then
    (.autoCorrelate, "Registered as a candidate: the Auto-Correlate toggle is off for this " ++
      "source or one of its feeds, routing the cluster to manual triage.")
  else if !onAllowlist cluster prefs &&
      decide (site.routingScore cluster prefs < (prefs.autoInvestigateRiskFloor : ℚ)) then
    (.riskFloor, "Registered as a candidate: its rules are not on the auto-forward " ++
      "allowlist and its available-signal routing score " ++
      shownScore site cluster prefs ++ " is below the configured floor " ++
      toString prefs.autoInvestigateRiskFloor ++ ".")
  else (.forwarded, "Auto-investigated: background scan is on, the cluster is above its " ++
    "severity_floor, Auto-Correlate is on, and " ++ why site cluster prefs ++ ".")

def explainForwarding (killSwitch : Bool) : Explanation :=
  let decided := decidingGate site cluster prefs
  { gate := decided.1
    forwarded := decided.1 = .forwarded
    dropped := decided.1 = .ignored || decided.1 = .suppressed
    sentence := decided.2
    sourceId := cluster.sourceId
    isAlert := cluster.isAlert
    notes :=
      if killSwitch then ["kill switch is engaged (all investigations are stopped)"] else [] }

end Mirrors

/-! ### The mirrors are the gates -/

section Same

variable {site : IngestSite} {cluster : Cluster} {prefs : IngestPreferences}

theorem sourceFor_eq : sourceFor cluster prefs = sourceOf cluster prefs := by
  cases h : cluster.sourceId with
  | none => simp [sourceFor, sourceOf, nonempty, h]
  | some id => by_cases hid : id = "" <;>
      simp [sourceFor, sourceOf, nonempty, Option.filter, h, hid, eq_comm]

theorem longestMatch_eq (index : String) (best : Option IngestFeed × Int)
    (hbest : best.2 = best.1.elim (-1) fun b => (b.pattern.length : Int)) (f : IngestFeed) :
    (longestMatch index best f).1 = longerMatch index best.1 f ∧
    (longestMatch index best f).2 =
      (longestMatch index best f).1.elim (-1) fun b => (b.pattern.length : Int) := by
  obtain ⟨b, n⟩ := best
  simp only at hbest
  subst hbest
  have hlonger : b.elim (-1) (fun b => (b.pattern.length : Int)) < (f.pattern.length : Int) ↔
      b.all (fun b => b.pattern.length < f.pattern.length) = true := by
    cases b with
    | none =>
      have hlength : (-1 : Int) < f.pattern.length := by omega
      simp [hlength]
    | some b => simp
  simp only [longestMatch, longerMatch, hlonger]
  split_ifs <;> simp

theorem longest_foldl (index : String) (feeds : List IngestFeed) (best : Option IngestFeed × Int)
    (hbest : best.2 = best.1.elim (-1) fun b => (b.pattern.length : Int)) :
    (feeds.foldl (longestMatch index) best).1 = feeds.foldl (longerMatch index) best.1 := by
  induction feeds generalizing best with
  | nil => rfl
  | cons f feeds ih =>
    obtain ⟨hsame, hkept⟩ := longestMatch_eq index best hbest f
    rw [foldl_cons, foldl_cons, ih _ hkept, hsame]

theorem feedForEvent_eq (ev : RawEvent) (feeds : List IngestFeed) :
    feedForEvent ev feeds = feedOf feeds ev := by
  have hlongest := longest_foldl ev.index feeds (none, -1) rfl
  unfold feedForEvent feedOf
  generalize (if ev.feedId = "" then none else feeds.reverse.find? fun f =>
    f.id = ev.feedId) = tagged
  cases tagged with
  | none => exact hlongest
  | some feed => rfl

theorem isIgnored_eq : isIgnored cluster prefs = isIgnoredCluster cluster prefs := by
  simp only [isIgnored, isIgnoredCluster, sourceFor_eq, feedForEvent_eq]
  cases sourceOf cluster prefs with
  | none => rfl
  | some src =>
    have hmuted : ∀ ev, (match feedOf src.feeds ev with
        | none => false
        | some feed => decide (feed.role = .ignore)) =
          (feedOf src.feeds ev).any fun f => f.role = .ignore := by
      intro ev
      cases feedOf src.feeds ev <;> rfl
    simp only [hmuted]
    by_cases hfeeds : src.feeds.any (fun f => f.role = .ignore) = true
    · have hsome : (src.feeds.filter fun f => f.role = .ignore).isEmpty = false := by
        simpa [isEmpty_eq_false_iff] using hfeeds
      cases hevents : cluster.memberEvents.isEmpty <;> simp [hfeeds, hsome]
    · have hnone : (src.feeds.filter fun f => f.role = .ignore).isEmpty = true := by
        simpa using hfeeds
      simp [hfeeds, hnone]

theorem passesSuppression_eq :
    passesSuppression site cluster prefs = Ingest.passesSuppression site cluster prefs := by
  simp only [passesSuppression, Ingest.passesSuppression, not_all_eq_any_not]
  cases (prefs.suppressionRules.filter SuppressionRule.live).isEmpty <;> simp

theorem autoCorrelateAllowed_eq :
    autoCorrelateAllowed site cluster prefs = Ingest.autoCorrelateAllowed site cluster prefs := by
  simp only [autoCorrelateAllowed, Ingest.autoCorrelateAllowed, sourceFor_eq, feedForEvent_eq,
    not_any_eq_all_not]
  cases sourceOf cluster prefs with
  | none => rfl
  | some src =>
    have hallows : ∀ ev, (!(match feedOf src.feeds ev with
        | none => false
        | some feed => !feed.effectiveAutoInvestigate)) =
          (feedOf src.feeds ev).all IngestFeed.effectiveAutoInvestigate := by
      intro ev
      cases feedOf src.feeds ev <;> simp
    simp only [hallows]
    cases src.autoCorrelate site <;> cases src.feeds.isEmpty <;> simp

theorem eligible_eq : eligible site cluster prefs = (prefs.backgroundScanEnabled &&
    cluster.autoInvestigateEligible && Ingest.autoCorrelateAllowed site cluster prefs &&
    (onAllowlist cluster prefs ||
      !decide (site.routingScore cluster prefs < (prefs.autoInvestigateRiskFloor : ℚ)))) := by
  have hallowlist : onAllowlist cluster prefs =
      (cluster.isAlert || prefs.autoForwardAllowlist.contains "*" ||
        cluster.ruleValues.any fun r => prefs.autoForwardAllowlist.contains r) := by
    rw [onAllowlist]
    cases cluster.isAlert <;> cases prefs.autoForwardAllowlist.contains "*" <;> rfl
  have hfloor : (decide ((prefs.autoInvestigateRiskFloor : ℚ) ≤ site.routingScore cluster prefs)) =
      !decide (site.routingScore cluster prefs < (prefs.autoInvestigateRiskFloor : ℚ)) := by
    rw [← decide_not, decide_eq_decide]
    exact not_lt.symm
  rw [eligible, hallowlist, hfloor]

/-- **A cluster is said to be forwarded exactly where it is.** -/
theorem forwarded_iff : (decidingGate site cluster prefs).1 = .forwarded ↔
    forwards site prefs cluster = true := by
  simp only [decidingGate, isIgnored_eq, passesSuppression_eq, autoCorrelateAllowed_eq, forwards,
    eligible_eq]
  split_ifs with hignored hpasses hscan hfloors hallowed hscore
  · simp [hignored]
  · simp at hpasses
    simp [hpasses]
  · simp at hscan
    simp [hscan]
  · simp at hfloors
    simp [hfloors]
  · simp at hallowed
    simp [hallowed]
  · simp only [Bool.and_eq_true, Bool.not_eq_true', decide_eq_true_eq] at hscore
    simp [hscore]
  · have hworth : onAllowlist cluster prefs = true ∨
        decide (site.routingScore cluster
          prefs < (prefs.autoInvestigateRiskFloor : ℚ)) = false := by
      rw [Bool.and_eq_true, not_and_or, Bool.not_eq_true, Bool.not_eq_true,
        Bool.not_eq_false'] at hscore
      exact hscore
    simp only [Bool.not_eq_true', Bool.not_eq_false, Bool.not_eq_true] at hignored hpasses hscan
    simp only [Bool.not_eq_true', Bool.not_eq_false] at hfloors hallowed
    rcases hworth with hlisted | hreached
    · simp [hignored, hpasses, hscan, hfloors, hallowed, hlisted]
    · simp [hignored, hpasses, hscan, hfloors, hallowed, hreached]

theorem ignored_iff : (decidingGate site cluster prefs).1 = .ignored ↔
    isIgnoredCluster cluster prefs = true := by
  simp only [decidingGate, isIgnored_eq]
  split_ifs with h <;> simp [h]

theorem suppressed_iff : (decidingGate site cluster prefs).1 = .suppressed ↔
    isIgnoredCluster cluster prefs = false ∧
      Ingest.passesSuppression site cluster prefs = false := by
  simp only [decidingGate, isIgnored_eq, passesSuppression_eq]
  split_ifs with h h' <;> simp_all

end Same

/-- **The explanation names the ending** of a cluster. -/
structure Explains (x : Explanation) (ending : Ending) : Prop where
  ignored : x.gate = .ignored ↔ ending = .ignored
  suppressed : x.gate = .suppressed ↔ ending = .suppressed
  forwarded : x.forwarded = true ↔ ending = .investigated
  candidate : (x.forwarded = false ∧ x.dropped = false) ↔
    ∃ capped, ending = .attached capped ∨ ending = .candidate capped

theorem explains_of_settled {site : IngestSite} {cluster : Cluster} {prefs : IngestPreferences}
    (killSwitch : Bool) {ending : Ending} (h : Settled site prefs cluster ending) :
    Explains (explainForwarding site cluster prefs killSwitch) ending := by
  have hgate := @ignored_iff site cluster prefs
  have hgate' := @suppressed_iff site cluster prefs
  have hgate'' := @forwarded_iff site cluster prefs
  generalize hdecided : decidingGate site cluster prefs = decided at hgate hgate' hgate''
  -- where the cluster passes the drops and is not eligible, no other gate is named
  have hother : (isIgnoredCluster cluster prefs = false ∧
      Ingest.passesSuppression site cluster prefs = true ∧ eligible site cluster prefs = false) →
      decided.1 ≠ .ignored ∧ decided.1 ≠ .suppressed ∧ decided.1 ≠ .forwarded := by
    rintro ⟨hi, hp, he⟩
    refine ⟨fun hd => ?_, fun hd => ?_, fun hd => ?_⟩
    · simp [hgate.mp hd] at hi
    · simp [(hgate'.mp hd).2] at hp
    · simpa [forwards, he] using hgate''.mp hd
  cases ending with
  | ignored => constructor <;> simp [explainForwarding, hdecided, hgate.mpr h]
  | suppressed => constructor <;> simp [explainForwarding, hdecided, hgate'.mpr h]
  | investigated => constructor <;> simp [explainForwarding, hdecided, hgate''.mpr h]
  | attached capped | candidate capped =>
    obtain ⟨h1, h2, h3⟩ := hother h
    constructor <;> simp [explainForwarding, hdecided, h1, h2, h3]

/-- **What the narrator says is what ingestion does.**  Whatever calls run beside it, a call that
found no case with a verdict and was refused no allowance ended every cluster as the narrator says
of it, did to each what that ending is, and counted the endings. -/
theorem explained {site : IngestSite} {limit : Int}
    {c : World} {τ : Nat} {call : Call} {stats : Stats}
    (h : (machine site limit).Reaches Machine.anyStep c)
      (hτ : c.clients[τ]? = some (call, .ret stats))
    (hundecided : Undecided (own τ c.trace))
    (hroom : Room call (call.clusters.countP (forwards site call.prefs)) (own τ c.trace))
    (killSwitch : Bool) :
    ∃ endings, List.Forall₂ (fun cluster ending =>
      Explains (explainForwarding site cluster call.prefs killSwitch) ending ∧
        Ended site call (own τ c.trace) cluster ending) call.clusters endings ∧
      stats = endings.foldl Stats.count { clusters := call.clusters.length } := by
  have hspec := (Service.kept_of_reaches (known_handleClusters site) h).spec τ call _ hτ
  obtain ⟨-, endings, hended, hsettled, hstats⟩ := hspec
  obtain ⟨hlength, hall⟩ := List.forall₂_iff_zip.mp (hsettled hundecided hroom)
  refine ⟨endings, List.forall₂_iff_zip.mpr ⟨hlength, fun {cluster ending} hmem => ?_⟩, hstats⟩
  have hdone := (List.forall₂_iff_zip.mp hended).2 hmem
  exact ⟨explains_of_settled killSwitch (hall hmem), hdone⟩

def undisturbed (c : World) : Bool :=
  (match c.clients with
  | [(call, .ret _)] => call.shared && decide (call.clusters.length = 1)
  | _ => false) && (own 0 c.trace).all fun x => (found x).isNone && !refused x

theorem alert_explained : ∃ c : World, ∃ call stats endings, call.clusters.length = 1 ∧
    List.Forall₂ (fun cluster ending =>
      Explains (explainForwarding plainSite cluster call.prefs false) ending ∧
        Ended plainSite call (own 0 c.trace) cluster ending) call.clusters endings ∧
    stats = endings.foldl Stats.count { clusters := call.clusters.length } := by
  obtain ⟨c, -, hc, hend⟩ := Machine.reaches_of_run (machine plainSite 1) undisturbed
    ⟨{ budget := .ofLimit 1 }, [], []⟩
    (.start ⟨[alertCluster "a"], {}, true⟩ :: List.replicate 5 (.step 0 {}))
      ⟨rfl, rfl, rfl⟩ (by decide)
  simp only [undisturbed, Bool.and_eq_true] at hend
  obtain ⟨hclients, htrace⟩ := hend
  split at hclients
  · next call stats hone =>
    simp only [Bool.and_eq_true, decide_eq_true_eq] at hclients
    have hkept : ∀ x ∈ own 0 c.trace, found x = none ∧ refused x = false := by simpa using htrace
    have hundecided : Undecided (own 0 c.trace) := by
      intro x hx cluster case hfound
      rw [(hkept x hx).1] at hfound
      cases hfound
    obtain ⟨endings, hall, hstats⟩ := explained hc (τ := 0) (by rw [hone]; rfl) hundecided
      ⟨fun _ x hx => (hkept x hx).2, fun halone => by simp [hclients.1] at halone⟩ false
    exact ⟨c, call, stats, endings, hclients.2, hall, hstats⟩
  · cases hclients

end AgenticKibana.Ingest.Forwarding
