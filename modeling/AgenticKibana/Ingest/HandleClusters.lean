import AgenticKibana.Correlation.Attach
import AgenticKibana.Poll.Feeds
import AgenticKibana.Library.TextLines
import AgenticKibana.Library.Clients

/-!
# Attach, investigate or register

`handle_clusters` walks over the clusters of one source.  The poll of several sources runs it
once for each, at the same time, with one `InvestigationBudget`; the cases of one signature are
looked up and changed under a lock of that signature.  The store of the cases and the pipeline
answer as they like, or fail.  Before an automatic investigation a cluster passes the mute of an
ignored feed, suppression, the global switch, the severity floors and the switches of its source
and feeds.
-/

namespace AgenticKibana.Ingest

open AgenticKibana.Library AgenticKibana.Correlation AgenticKibana.Poll

/-- An `IndexPattern` with the switches of its automatic investigations. -/
structure IngestFeed extends Feed where
  correlate : Bool := true
  autoInvestigate : Option Bool := none

def IngestFeed.effectiveAutoInvestigate (f : IngestFeed) : Bool :=
  match f.autoInvestigate with
  | some pinned => pinned
  | none => if f.role = .ignore then false else f.role = .alerts || f.correlate

/-- A `SourceInstance`; `autoCorrelateSetting` is what `config["auto_correlate"]` holds. -/
structure IngestSource where
  id : String
  autoCorrelateSetting : Option Json := none
  feeds : List IngestFeed := []

/-- A suppression rule; `live` is `is_live()` at the time of the call. -/
structure SuppressionRule where
  field : String
  value : String
  live : Bool := true

/-- What `handle_clusters` reads of the preferences. -/
structure IngestPreferences where
  sources : List IngestSource := []
  suppressionRules : List SuppressionRule := []
  backgroundScanEnabled : Bool := true
  autoForwardAllowlist : List String := []
  autoInvestigateRiskFloor : Int := 0
  maxAutoInvestigationsPerTick : Int := 25

/-- What the gates call: `str` of a value that may be missing, `str.lower`, and the total of
`compute_routing_risk`. -/
structure IngestSite where
  str : Option Json → String
  lower : String → String
  routingScore : Cluster → IngestPreferences → ℚ

variable (site : IngestSite)

def IngestSource.autoCorrelate (source : IngestSource) : Bool :=
  match source.autoCorrelateSetting with
  | none => true
  | some .null => true
  | some (.bool b) => b
  | some value =>
    !(["false", "0", "no", "off"].contains
      (site.lower (String.ofList (TextLines.strip (site.str (some value)).toList))))

def sourceOf (cluster : Cluster) (prefs : IngestPreferences) : Option IngestSource :=
  match nonempty cluster.sourceId with
  | none => none
  | some id => prefs.sources.find? fun s => s.id = id

def longerMatch (index : String) (best : Option IngestFeed) (f : IngestFeed) : Option IngestFeed :=
  if f.pattern ≠ "" ∧ index ≠ "" ∧ fnmatch index f.pattern = true ∧
      best.all (fun b => b.pattern.length < f.pattern.length) then some f
  else best

/-- The feed of an event: the last one with its `feed_id`, or else the one with the longest
pattern that matches its index. -/
def feedOf (feeds : List IngestFeed) (ev : RawEvent) : Option IngestFeed :=
  let tagged := if ev.feedId = "" then none else feeds.reverse.find? fun f => f.id = ev.feedId
  match tagged with
  | some f => some f
  | none => feeds.foldl (longerMatch ev.index) none

def autoCorrelateAllowed (cluster : Cluster) (prefs : IngestPreferences) : Bool :=
  match sourceOf cluster prefs with
  | none => true
  | some source =>
    source.autoCorrelate site &&
      (source.feeds.isEmpty || cluster.memberEvents.all fun ev =>
        (feedOf source.feeds ev).all IngestFeed.effectiveAutoInvestigate)

def isIgnoredCluster (cluster : Cluster) (prefs : IngestPreferences) : Bool :=
  match sourceOf cluster prefs with
  | none => false
  | some source =>
    source.feeds.any (fun f => f.role = .ignore) && !cluster.memberEvents.isEmpty &&
      cluster.memberEvents.all fun ev => (feedOf source.feeds ev).any fun f => f.role = .ignore

def passesSuppression (cluster : Cluster) (prefs : IngestPreferences) : Bool :=
  let rules := prefs.suppressionRules.filter SuppressionRule.live
  rules.isEmpty || cluster.memberEvents.any fun ev =>
    !rules.any fun r => site.str (dottedGet ev.source r.field) == r.value

/-- The condition `eligible` of `handle_clusters`. -/
def eligible (cluster : Cluster) (prefs : IngestPreferences) : Bool :=
  prefs.backgroundScanEnabled && cluster.autoInvestigateEligible &&
    autoCorrelateAllowed site cluster prefs &&
    (cluster.isAlert || prefs.autoForwardAllowlist.contains "*" ||
      cluster.ruleValues.any (fun r => prefs.autoForwardAllowlist.contains r) ||
      decide ((prefs.autoInvestigateRiskFloor : ℚ) ≤ site.routingScore cluster prefs))

def candidateReason (cluster : Cluster) (prefs : IngestPreferences) (capped : Bool) : String :=
  if capped then
    "deferred: per-tick auto-investigation cap reached; drains to investigation " ++
      "on a later tick once cap headroom frees"
  else if prefs.backgroundScanEnabled = false then
    "automated background investigation is disabled"
  else if cluster.autoInvestigateEligible = false then
    "every event is below its feed's severity floor"
  else if autoCorrelateAllowed site cluster prefs = false then
    "auto-correlate is off for this source or feed"
  else
    let score := site.routingScore cluster prefs
    "available-signal routing score " ++ toString (score.num.tdiv score.den) ++
      " is below the auto-investigate floor " ++ toString prefs.autoInvestigateRiskFloor

/-- A cluster may be investigated without being asked for: the scan is on, not all of its events
are below the floors of their feeds, its source and each feed of its events allow it, and it is
an alert, allowlisted, or at the risk floor. -/
structure MayInvestigate (cluster : Cluster) (prefs : IngestPreferences) : Prop where
  scan : prefs.backgroundScanEnabled = true
  floors : cluster.autoInvestigateEligible = true
  source : ∀ source, sourceOf cluster prefs = some source → source.autoCorrelate site = true ∧
    ∀ ev ∈ cluster.memberEvents, ∀ f, feedOf source.feeds ev = some f →
      f.effectiveAutoInvestigate = true
  worth : cluster.isAlert = true ∨ "*" ∈ prefs.autoForwardAllowlist ∨
    (∃ r ∈ cluster.ruleValues, r ∈ prefs.autoForwardAllowlist) ∨
    (prefs.autoInvestigateRiskFloor : ℚ) ≤ site.routingScore cluster prefs

variable {site}

theorem feedOf_nil (ev : RawEvent) : feedOf [] ev = none := by
  simp [feedOf]

theorem eligible_iff {cluster : Cluster} {prefs : IngestPreferences} :
    eligible site cluster prefs = true ↔ MayInvestigate site cluster prefs := by
  have hallowed : autoCorrelateAllowed site cluster prefs = true ↔
      ∀ source, sourceOf cluster prefs = some source → source.autoCorrelate site = true ∧
        ∀ ev ∈ cluster.memberEvents, ∀ f, feedOf source.feeds ev = some f →
          f.effectiveAutoInvestigate = true := by
    cases hsource : sourceOf cluster prefs with
    | none => simp [autoCorrelateAllowed, hsource]
    | some source =>
      cases hfeeds : source.feeds with
      | nil => simp [autoCorrelateAllowed, hsource, hfeeds, feedOf_nil]
      | cons f fs => simp [autoCorrelateAllowed, hsource, hfeeds, Option.all_eq_true]
  simp only [eligible, Bool.and_eq_true, Bool.or_eq_true, hallowed, List.any_eq_true,
    List.contains_iff_mem, decide_eq_true_eq, or_assoc]
  constructor
  · rintro ⟨⟨⟨hscan, hfloors⟩, hsource⟩, hworth⟩
    exact ⟨hscan, hfloors, hsource, hworth⟩
  · rintro ⟨hscan, hfloors, hsource, hworth⟩
    exact ⟨⟨⟨hscan, hfloors⟩, hsource⟩, hworth⟩

/-! ### The calls -/

structure InvestigationBudget where
  limit : Nat
  claimed : Nat := 0
deriving DecidableEq

/-- `InvestigationBudget(limit)`. -/
def InvestigationBudget.ofLimit (limit : Int) : InvestigationBudget := { limit := limit.toNat }

/-- `try_claim`; nothing is awaited under its lock, so it is one step. -/
def InvestigationBudget.tryClaim (b : InvestigationBudget) : InvestigationBudget × Bool :=
  if b.limit ≤ b.claimed then (b, false) else ({ b with claimed := b.claimed + 1 }, true)

structure Shared where
  budget : InvestigationBudget
  locks : List (String × Nat) := []
deriving DecidableEq

structure FoundCase extends OpenCase where
  verdict : Option String := none
  awaitingReason : String := ""

inductive Failure where
  | raised

inductive Act where
  /-- wait for the lock of a signature, and take it -/
  | acquire (signature : String)
  | release (signature : String)
  /-- `find_open_case_for_cluster` -/
  | find (cluster : Cluster)
  | tryClaim
  | isoNow
  /-- `cases.save` -/
  | save (case : FoundCase)
  /-- `_investigate_cluster_locked` -/
  | investigate (cluster : Cluster)
  /-- `_register_candidate_locked` -/
  | register (cluster : Cluster) (reason : String)

def Reply : Act → Type
  | .acquire _ => Unit
  | .release _ => Unit
  | .find _ => Except Failure (Option FoundCase)
  | .tryClaim => Bool
  | .isoNow => String
  | .save _ => Except Failure Unit
  | .investigate _ => Except Failure Unit
  | .register _ _ => Except Failure Unit

structure Answer where
  fails : Bool := false
  found : Option FoundCase := none
  now : String := ""

def Answer.result {α : Type} (answer : Answer) (a : α) : Except Failure α :=
  if answer.fails then .error .raised else .ok a

def service : Service Reply Answer Shared where
  serve τ
    | .acquire signature, _, s =>
      if s.locks.any fun l => l.1 = signature then none
      else some ({ s with locks := (signature, τ) :: s.locks }, ())
    | .release signature, _, s =>
      some ({ s with locks := s.locks.filter fun l => l ≠ (signature, τ) }, ())
    | .find _, answer, s => some (s, answer.result answer.found)
    | .tryClaim, _, s => some ({ s with budget := s.budget.tryClaim.1 }, s.budget.tryClaim.2)
    | .isoNow, answer, s => some (s, answer.now)
    | .save _, answer, s => some (s, answer.result ())
    | .investigate _, answer, s => some (s, answer.result ())
    | .register _ _, answer, s => some (s, answer.result ())

/-! ### The call -/

/-- A call of `handle_clusters`. -/
structure Call where
  clusters : List Cluster
  prefs : IngestPreferences
  /-- whether it was given the shared budget -/
  shared : Bool := true

structure Stats where
  clusters : Nat := 0
  investigated : Nat := 0
  candidates : Nat := 0
  attached : Nat := 0
  suppressed : Nat := 0
  ignored : Nat := 0
  deferred : Nat := 0
deriving DecidableEq

/-- How a cluster ends; `capped` where it was eligible and there was no allowance for it. -/
inductive Ending where
  | ignored
  | suppressed
  | attached (capped : Bool)
  | investigated
  | candidate (capped : Bool)
deriving DecidableEq

def Stats.count (stats : Stats) : Ending → Stats
  | .ignored => { stats with ignored := stats.ignored + 1 }
  | .suppressed => { stats with suppressed := stats.suppressed + 1 }
  | .attached capped =>
    { stats with
      attached := stats.attached + 1
      deferred := stats.deferred + if capped then 1 else 0 }
  | .investigated => { stats with investigated := stats.investigated + 1 }
  | .candidate capped =>
    { stats with
      candidates := stats.candidates + 1
      deferred := stats.deferred + if capped then 1 else 0 }

abbrev Prog (α : Type) : Type := Code Reply Failure α

def ofExcept {α : Type} : Except Failure α → Prog α
  | .ok a => .ret a
  | .error e => .raise e

def access (a : Act) : Code Reply Failure (Reply a) := Code.perform a

def attempt {α : Type} (m : Prog (Except Failure α)) : Prog α := m >>= ofExcept

def acquire (signature : String) : Prog Unit := access (.acquire signature)
def release (signature : String) : Prog Unit := access (.release signature)
def find (cluster : Cluster) : Prog (Option FoundCase) := attempt (access (.find cluster))
def tryClaim : Prog Bool := access .tryClaim
def isoNow : Prog String := access .isoNow
def save (case : FoundCase) : Prog Unit := attempt (access (.save case))
def investigate (cluster : Cluster) : Prog Unit := attempt (access (.investigate cluster))
def register (cluster : Cluster) (reason : String) : Prog Unit :=
  attempt (access (.register cluster reason))

def FoundCase.attach (case : FoundCase) (now : String) (cluster : Cluster) : FoundCase × Bool :=
  let merged := attachCluster now case.toOpenCase cluster
  ({ case with toOpenCase := merged.1 }, merged.2)

/-- `attach_cluster`: only what is new is saved. -/
def attach (case : FoundCase) (cluster : Cluster) : Prog Bool := do
  let now ← isoNow
  let attached := (case.attach now cluster).2
  Code.when attached (save (case.attach now cluster).1)
  pure attached

section Call

variable (site : IngestSite) (call : Call)

def forward (cluster : Cluster) (investigatedThisTick : Nat) : Prog Bool :=
  if eligible site cluster call.prefs = false then pure false
  else if call.shared then tryClaim
  else pure (decide ((investigatedThisTick : Int) < max 1 call.prefs.maxAutoInvestigationsPerTick))

def refresh (case : FoundCase) (cluster : Cluster) (capped : Bool) : Prog Ending := do
  let reason := candidateReason site cluster call.prefs capped
  let case' := { case with awaitingReason := reason }
  let attached ← attach case' cluster
  Code.when (case.awaitingReason != reason && !attached) (save case')
  pure (.attached capped)

def place (cluster : Cluster) (investigatedThisTick : Nat) : Prog Ending := do
  let existing ← find cluster
  match existing with
  | some case =>
    if case.verdict.isSome then do
      let _ ← attach case cluster
      pure (.attached false)
    else do
      let forwarded ← forward site call cluster investigatedThisTick
      if forwarded then do
        investigate cluster
        pure .investigated
      else refresh site call case cluster (eligible site cluster call.prefs)
  | none => do
      let forwarded ← forward site call cluster investigatedThisTick
      if forwarded then do
        investigate cluster
        pure .investigated
      else do
        let capped := eligible site cluster call.prefs
        register cluster (candidateReason site cluster call.prefs capped)
        pure (.candidate capped)

/-- `async with` the lock of a signature. -/
def locked {α : Type} (signature : String) (body : Prog α) : Prog α := do
  acquire signature
  let a ← body.orElse fun e => do
    release signature
    .raise e
  release signature
  pure a

/-- The loop of `handle_clusters`. -/
def handle : List Cluster → Nat → Stats → Prog Stats
  | [], _, stats => pure stats
  | cluster :: rest, investigatedThisTick, stats =>
    if isIgnoredCluster cluster call.prefs then
      handle rest investigatedThisTick (stats.count .ignored)
    else if passesSuppression site cluster call.prefs = false then
      handle rest investigatedThisTick (stats.count .suppressed)
    else do
      let ending ← locked cluster.signature (place site call cluster investigatedThisTick)
      handle rest (investigatedThisTick + if ending = .investigated then 1 else 0)
        (stats.count ending)

def handleClusters : Prog Stats :=
  handle site call call.clusters 0 { clusters := call.clusters.length }

end Call

def machine (site : IngestSite) (limit : Int) :
    Machine (Clients Reply Call Failure Stats Shared) (Move Call Answer) :=
  service.machine (handleClusters site) fun s => s = { budget := .ofLimit limit }

def SharesBudget (_ : Clients Reply Call Failure Stats Shared) : Move Call Answer → Prop
  | .start call => call.shared = true
  | .step _ _ => True

end AgenticKibana.Ingest
