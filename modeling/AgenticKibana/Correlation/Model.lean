import AgenticKibana.Library.Grouping
import AgenticKibana.Library.Json
import AgenticKibana.Library.Sha256

/-!
# Correlation: from events to clusters

`correlate` groups the events of a batch per rule, each under the entity that its own ladder
resolves to.  A group that meets the rule's trigger makes its entity key trigger; every key
that triggered then gathers all events of the batch that have its value.
-/

namespace AgenticKibana.Correlation

open AgenticKibana.Library

inductive EntityType where
  | ip
  | user
  | host
  | fileHash
  | domain
  | rule
  deriving DecidableEq

def EntityType.value : EntityType → String
  | .ip => "ip"
  | .user => "user"
  | .host => "host"
  | .fileHash => "file_hash"
  | .domain => "domain"
  | .rule => "rule"

theorem EntityType.value_injective : Function.Injective EntityType.value := by
  intro a b h
  cases a <;> cases b <;> first | rfl | (exact absurd h (by decide))

inductive CorrelationMode where
  | every
  | threshold
  | never
  deriving DecidableEq

inductive EntityStrategy where
  | auto
  | ip
  | host
  | user
  | rule
  deriving DecidableEq

structure CorrelationRule where
  mode : CorrelationMode := .threshold
  n : Nat := 5
  windowSeconds : Nat := 120
  groupBy : EntityType := .ip

structure RuleDefinition where
  name : String
  correlation : Option CorrelationRule := none

/-- What `correlate` reads of the preferences. -/
structure Preferences where
  entityStrategy : EntityStrategy := .auto
  ruleCatalog : List RuleDefinition := []
  defaultCorrelation : CorrelationRule := {}
  correlationRules : Dict String CorrelationRule := Dict.empty

def Preferences.correlationFor (prefs : Preferences) (rule : String) : CorrelationRule :=
  (prefs.correlationRules.get? rule).getD prefs.defaultCorrelation

def Preferences.correlationForDef (prefs : Preferences) (rd : RuleDefinition) : CorrelationRule :=
  rd.correlation.getD (prefs.correlationFor rd.name)

def Preferences.config (prefs : Preferences) (rule : String) : CorrelationRule :=
  match (Dict.ofList (prefs.ruleCatalog.map fun rd => (rd.name, rd))).get? rule with
  | some rd => prefs.correlationForDef rd
  | none => prefs.correlationFor rule

/-- What is not part of the code: `str.lower`, and the format `g` of a severity. -/
structure Env where
  lower : String → String
  general : ℚ → String

/-! ### Events -/

def nonempty (text : Option String) : Option String := text.filter fun t => t ≠ ""

structure RawEvent where
  id : String
  index : String := ""
  /-- the raw document -/
  source : List (String × Json) := []
  timestampMillis : Int := 0
  ip : Option String := none
  user : Option String := none
  host : Option String := none
  rule : Option String := none
  ruleName : Option String := none
  severity : ℚ := 0
  indexRole : String := "events"
  sourceId : Option String := none
  sourceName : Option String := none
  feedId : String := ""
  autoInvestigateEligible : Bool := true

def followPath : List String → Json → Option Json
  | [], j => some j
  | part :: parts, .obj ms => ((ms.find? fun m => m.1 == part).map Prod.snd).bind (followPath parts)
  | _ :: _, _ => none

/-- `dotted_get`: a flattened key, or a path. -/
def dottedGet (doc : List (String × Json)) (path : String) : Option Json :=
  if path = "" then none
  else match doc.find? fun m => m.1 == path with
    | some m => some m.2
    | none => followPath (path.splitOn ".") (.obj doc)

/-- `_as_str`: the text of a value, of the first one of a list. -/
def asStr : Option Json → Option String
  | none | some .null | some (.arr []) | some (.arr (.null :: _)) => none
  | some (.arr (j :: _)) => some j.pyStr
  | some j => some j.pyStr

namespace RawEvent

variable (env : Env) (ev : RawEvent)

def ruleBucketSeconds : Int := 300

def fileHashFields : List String :=
  ["file.hash.sha256", "file.hash.sha1", "file.hash.md5", "process.hash.sha256", "hash.sha256",
    "sha256", "data.sha256"]

def domainFields : List String :=
  ["url.domain", "destination.domain", "dns.question.name", "domain", "data.domain", "host.domain"]

def firstField (fields : List String) : Option String :=
  fields.findSome? fun field => nonempty (asStr (dottedGet ev.source field))

def crossSourceValue : EntityType → Option String
  | .ip => ev.ip
  | .host => ev.host
  | .user => ev.user
  | .fileHash => (ev.firstField fileHashFields).map env.lower
  | .domain => ev.firstField domainFields
  | .rule => none

/-- `entity_value`: of a rule, its name and the time bucket. -/
def entityValue : EntityType → Option String
  | .rule => ((nonempty ev.rule).or (nonempty ev.ruleName)).map fun rule =>
    rule ++ "|" ++ toString (ev.timestampMillis / (ruleBucketSeconds * 1000))
  | .fileHash => ev.crossSourceValue env .fileHash
  | .domain => ev.crossSourceValue env .domain
  | .ip => ev.ip
  | .user => ev.user
  | .host => ev.host

def eventKey : String := if ev.index = "" then ev.id else ev.index ++ "\x1f" ++ ev.id

def bucket : String := (nonempty ev.rule).getD "unknown"

def isAlert : Bool := ev.indexRole == "alerts"

end RawEvent

abbrev EntityKey : Type := EntityType × String

def autoLadder : List EntityType := [.ip, .host, .user, .rule]

/-- `_PINNED_LADDER`, and the automatic one. -/
def EntityStrategy.ladder : EntityStrategy → List EntityType
  | .auto => autoLadder
  | .ip => [.ip, .rule]
  | .host => [.host, .rule]
  | .user => [.user, .rule]
  | .rule => [.rule]

def RawEvent.keyUnder (env : Env) (ev : RawEvent) (et : EntityType) : Option EntityKey :=
  (ev.entityValue env et).map fun value => (et, value)

def resolveEntity (env : Env) (ev : RawEvent) (groupBy : EntityType) (strategy : EntityStrategy) :
    Option EntityKey :=
  let climbed := strategy.ladder.findSome? (ev.keyUnder env)
  if strategy = .auto then (ev.keyUnder env groupBy).or climbed else climbed

structure WindowDetail where
  observedCount : Nat
  windowStart : Int
  windowEnd : Int

/-- The densest window so far, sliding over sorted times; `window` holds the times from `left` to
`right`. -/
def densest (n : Nat) (span : Int) : List Int → List Int → Option WindowDetail → Option WindowDetail
  | _, [], best => best
  | window, t :: times, best =>
    let window := (window ++ [t]).dropWhile fun s => span < t - s
    let better := n ≤ window.length && best.all fun b => b.observedCount < window.length
    densest n span window times
      (if better then some ⟨window.length, window.headD t, t⟩ else best)

def windowDetail (events : List RawEvent) (cfg : CorrelationRule) : Option WindowDetail :=
  match (events.map RawEvent.timestampMillis).mergeSort (· ≤ ·) with
  | [] => none
  | t :: times =>
    if cfg.mode = .every ∨ cfg.n ≤ 1 then
      some ⟨events.length, t, (t :: times).getLast (List.cons_ne_nil _ _)⟩
    else if events.length < cfg.n then none
    else densest cfg.n (cfg.windowSeconds * 1000) [] (t :: times) none

structure TriggerMeta where
  ruleValue : String
  mode : CorrelationMode
  n : Nat
  windowSeconds : Nat
  groupBy : EntityType
  detail : WindowDetail
  severityMin : Option ℚ
  severityMax : Option ℚ

def TriggerMeta.observedCount (m : TriggerMeta) : Nat := m.detail.observedCount

/-! ### Clusters -/

structure TriggerReason where
  ruleValue : String
  mode : CorrelationMode
  n : Nat
  windowSeconds : Nat
  groupBy : EntityType
  observedCount : Nat
  windowStart : Int
  windowEnd : Int
  entity : String
  ruleValues : List String
  severityMin : Option ℚ
  severityMax : Option ℚ
  sentence : String

structure Cluster where
  signature : String
  legacySignature : Option String
  entity : EntityKey
  groupBy : EntityType
  ruleValues : List String
  memberEventIds : List String
  memberEventKeys : List String
  memberEvents : List RawEvent
  firstSeenMillis : Int
  lastSeenMillis : Int
  count : Nat
  triggerReason : Option TriggerReason
  sourceId : Option String
  sourceName : Option String
  isAlert : Bool
  sourceIds : List String
  autoInvestigateEligible : Bool
  feedIds : List String

def signatureText (parts : List String) : String := "|".intercalate parts

def digest (text : String) : String := String.ofList ((Sha256.hexdigest text.toList).toList.take 32)

def stableSignature (parts : List String) : String := digest (signatureText parts)

def clusterParts (key : EntityKey) (sourceId : Option String) : List String :=
  "cluster" :: ((nonempty sourceId).toList ++ [key.1.value, key.2])

def clusterSignature (key : EntityKey) (sourceId : Option String) : String :=
  stableSignature (clusterParts key sourceId)

/-- `value.rsplit("|", 1)[0]`. -/
def beforeLastBar (value : String) : String :=
  match value.toList.reverse.dropWhile (· ≠ '|') with
  | [] => value
  | _ :: rest => String.ofList rest.reverse

/-- `sorted(set(...))`. -/
def sortedSet (texts : List String) : List String := texts.dedup.mergeSort (· ≤ ·)

def sentence (m : TriggerMeta) (entityType : EntityType) (value : String) : String :=
  let count := toString m.observedCount
  match m.mode with
  | .threshold => count ++ " '" ++ m.ruleValue ++ "' events from " ++ entityType.value ++ " " ++
      value ++ " within " ++ toString m.windowSeconds ++ "s (threshold N=" ++ toString m.n ++
      ", grouped by " ++ m.groupBy.value ++ ")"
  | .every => "'" ++ m.ruleValue ++ "' event from " ++ entityType.value ++ " " ++ value ++
      " (rule configured to investigate every occurrence)"
  | .never => count ++ " '" ++ m.ruleValue ++ "' events from " ++ entityType.value ++ " " ++ value

def severityText (env : Env) : Option ℚ → Option ℚ → String
  | some smin, some smax =>
    if smin ≠ 0 ∨ smax ≠ 0 then "; severity " ++ env.general smin ++ "–" ++ env.general smax
    else ""
  | _, _ => ""

def buildTriggerReason (env : Env) (entityType : EntityType) (value : String)
    (ruleValues : List String) (m : TriggerMeta) : TriggerReason where
  ruleValue := m.ruleValue
  mode := m.mode
  n := m.n
  windowSeconds := m.windowSeconds
  groupBy := m.groupBy
  observedCount := m.observedCount
  windowStart := m.detail.windowStart
  windowEnd := m.detail.windowEnd
  entity := entityType.value ++ ":" ++ value
  ruleValues := ruleValues
  severityMin := m.severityMin
  severityMax := m.severityMax
  sentence := sentence m entityType value ++ severityText env m.severityMin m.severityMax

/-- `sorted(members, key=lambda e: e.timestamp_millis)`. -/
def byTime (members : List RawEvent) : List RawEvent :=
  members.mergeSort fun a b => a.timestampMillis ≤ b.timestampMillis

def buildCluster (env : Env) (key : EntityKey) (members : List RawEvent)
    (triggerMeta : Option TriggerMeta) : Cluster :=
  let sorted := byTime members
  let ruleValues := sortedSet (members.filterMap fun ev => nonempty ev.rule)
  let display := if key.1 = .rule then beforeLastBar key.2 else key.2
  let sourceId := sorted.findSome? fun ev => nonempty ev.sourceId
  { signature := clusterSignature key sourceId
    legacySignature := sourceId.map fun _ => clusterSignature key none
    entity := (key.1, display)
    groupBy := key.1
    ruleValues
    memberEventIds := sorted.map RawEvent.id
    memberEventKeys := sorted.map RawEvent.eventKey
    memberEvents := sorted
    firstSeenMillis := (sorted.head?.map RawEvent.timestampMillis).getD 0
    lastSeenMillis := (sorted.getLast?.map RawEvent.timestampMillis).getD 0
    count := sorted.length
    triggerReason := triggerMeta.map (buildTriggerReason env key.1 display ruleValues)
    sourceId
    sourceName := sorted.findSome? fun ev => nonempty ev.sourceName
    isAlert := sorted.any RawEvent.isAlert
    sourceIds := sortedSet (sorted.filterMap fun ev => nonempty ev.sourceId)
    autoInvestigateEligible := sorted.any RawEvent.autoInvestigateEligible
    feedIds := sortedSet (sorted.filterMap fun ev => nonempty (some ev.feedId)) }

/-! ### A batch -/

section Batch

variable (env : Env) (prefs : Preferences) (strategy : EntityStrategy) (batchIsAlerts : Bool)

/-- The configuration a group is judged by: a group with an alert, or of a batch of alerts, triggers
on every event. -/
def effective (cfg : CorrelationRule) (group : List RawEvent) : CorrelationRule :=
  if batchIsAlerts || group.any RawEvent.isAlert then { cfg with mode := .every, n := 1 } else cfg

def groupMeta (rule : String) (key : EntityKey) (group : List RawEvent) : Option TriggerMeta :=
  let cfg := effective batchIsAlerts (prefs.config rule) group
  (windowDetail group cfg).map fun detail =>
    { ruleValue := rule
      mode := cfg.mode
      n := cfg.n
      windowSeconds := cfg.windowSeconds
      groupBy := key.1
      detail
      severityMin := (group.map RawEvent.severity).min?
      severityMax := (group.map RawEvent.severity).max? }

def ruleTriggers (rule : String) (ruleEvents : List RawEvent) : List (EntityKey × TriggerMeta) :=
  let cfg := prefs.config rule
  if cfg.mode = .never then []
  else (Dict.groupBy (fun ev => resolveEntity env ev cfg.groupBy strategy)
    ruleEvents).entries.filterMap
    fun e => (groupMeta prefs batchIsAlerts rule e.1 e.2).map fun m => (e.1, m)

def candidates (events : List RawEvent) : List (EntityKey × TriggerMeta) :=
  (Dict.groupBy (fun ev => some ev.bucket) events).entries.flatMap fun e =>
    ruleTriggers env prefs strategy batchIsAlerts e.1 e.2

def triggers (events : List RawEvent) : Dict EntityKey TriggerMeta :=
  (candidates env prefs strategy batchIsAlerts events).foldl
    (Dict.keepBest TriggerMeta.observedCount) Dict.empty

def keyLe (a b : EntityKey) : Bool :=
  a.1.value < b.1.value || (a.1.value == b.1.value && decide (a.2 ≤ b.2))

def membersOf (events : List RawEvent) (key : EntityKey) : List RawEvent :=
  events.filter fun ev => ev.entityValue env key.1 = some key.2

def clusterOf (events : List RawEvent) (e : EntityKey × TriggerMeta) : Option Cluster :=
  let members := membersOf env events e.1
  if members = [] then none else some (buildCluster env e.1 members (some e.2))

end Batch

/-- `role` is a hint that the whole batch has one role. -/
def batchIsAlerts (env : Env) (role : Option String) : Bool := env.lower (role.getD "") = "alerts"

def correlate (env : Env) (events : List RawEvent) (prefs : Preferences)
    (entityStrategy : Option EntityStrategy) (role : Option String) : List Cluster :=
  let strategy := entityStrategy.getD prefs.entityStrategy
  let keys := triggers env prefs strategy (batchIsAlerts env role) events
  (keys.entries.mergeSort fun a b => keyLe a.1 b.1).filterMap (clusterOf env events)

end AgenticKibana.Correlation
