import AgenticKibana.Correlation.Model
import AgenticKibana.Library.FirstSeen
import AgenticKibana.Library.Machine

/-!
# Attaching clusters to an open case

`attach_cluster` merges the events of a cluster into an open case.  The case knows its events by
keys; a case that was stored before there were keys knows them by their native ids only.

Each source event that was attached should be known to the case by one key, and attaching a cluster
again should do nothing.  A case that knows its members by native ids gives this up with its first
new key: from then on a cluster that repeats such a member brings its qualified key as a new one.
-/

namespace AgenticKibana.Correlation

open AgenticKibana.Library

/-! ### The identity of an event -/

structure SourceEvent where
  index : String
  id : String
  deriving DecidableEq

def makeCursorEventKey (index eventId : String) : String :=
  if index = "" then eventId else index ++ "\x1f" ++ eventId

def SourceEvent.key (e : SourceEvent) : String := makeCursorEventKey e.index e.id

def RawEvent.sourceEvent (ev : RawEvent) : SourceEvent := ⟨ev.index, ev.id⟩

@[simp] theorem key_sourceEvent (ev : RawEvent) : ev.sourceEvent.key = ev.eventKey := rfl

@[simp] theorem id_sourceEvent (ev : RawEvent) : ev.sourceEvent.id = ev.id := rfl

structure BuiltCluster extends Cluster where
  ids_eq : memberEventIds = memberEvents.map RawEvent.id
  keys_eq : memberEventKeys = memberEvents.map RawEvent.eventKey

/-- What `_build_cluster` returns, as such a cluster. -/
def BuiltCluster.build (env : Env) (key : EntityKey) (members : List RawEvent)
    (triggerMeta : Option TriggerMeta) : BuiltCluster where
  toCluster := buildCluster env key members triggerMeta
  ids_eq := rfl
  keys_eq := rfl

def BuiltCluster.events (cluster : BuiltCluster) : List SourceEvent :=
  cluster.memberEvents.map RawEvent.sourceEvent

theorem BuiltCluster.ids_events (cluster : BuiltCluster) :
    cluster.memberEventIds = cluster.events.map SourceEvent.id := by
  simp [BuiltCluster.events, cluster.ids_eq, Function.comp_def]

theorem BuiltCluster.keys_events (cluster : BuiltCluster) :
    cluster.memberEventKeys = cluster.events.map SourceEvent.key := by
  simp [BuiltCluster.events, cluster.keys_eq, Function.comp_def]

/-! ### Cases -/

/-- What `attach_cluster` reads and writes of a case. -/
structure OpenCase where
  memberEventIds : List String := []
  memberEventKeys : List String := []
  clusterSignature : String := ""
  sourceId : Option String := none
  sourceName : Option String := none
  updatedAt : String := ""
  ruleIds : List String := []
  history : List Json := []
  triggerReason : Option TriggerReason := none

/-- `keys or ids`. -/
def orIds (keys ids : List String) : List String := if keys = [] then ids else keys

/-- `existing.member_event_keys or existing.member_event_ids`: what the case knows its members
by. -/
def OpenCase.priorKeys (case : OpenCase) : List String :=
  orIds case.memberEventKeys case.memberEventIds

def newKeys (existing : OpenCase) (cluster : Cluster) : List String :=
  let incomingKeys := orIds cluster.memberEventKeys cluster.memberEventIds
  if existing.memberEventKeys ≠ [] then
    incomingKeys.filter fun key => key ∉ existing.priorKeys
  else
    ((incomingKeys.zip cluster.memberEventIds).filter fun m =>
      m.2 ∉ existing.memberEventIds).map Prod.fst

def attachEntry (now : String) (added : Nat) : Json :=
  .obj [("ts", .str now), ("event", .str "attach"), ("added_events", .int added)]

/-- `attach_cluster`: the case as it is left, and whether something new was attached; only then it
is saved. -/
def attachCluster (now : String) (existing : OpenCase) (cluster : Cluster) : OpenCase × Bool :=
  let priorKeys := existing.priorKeys
  let mergedKeys := (priorKeys ++ newKeys existing cluster).eraseDups
  let before := priorKeys.length
  if mergedKeys.length = before then (existing, false)
  else
    ({ memberEventKeys := mergedKeys
       memberEventIds := (existing.memberEventIds ++ cluster.memberEventIds).eraseDups
       clusterSignature := cluster.signature
       sourceId := (nonempty cluster.sourceId).or existing.sourceId
       sourceName := (nonempty cluster.sourceName).or existing.sourceName
       updatedAt := now
       ruleIds := sortedSet (existing.ruleIds ++ cluster.ruleValues)
       history := existing.history ++ [attachEntry now (mergedKeys.length - before)]
       triggerReason := existing.triggerReason.or cluster.triggerReason }, true)

def addedEvents : Json → Int
  | .obj ms => match ms.find? fun m => m.1 == "added_events" with
    | some (_, .int n) => n
    | _ => 0
  | _ => 0

def OpenCase.totalAdded (case : OpenCase) : Int := (case.history.map addedEvents).sum

@[simp] theorem addedEvents_attachEntry (now : String) (added : Nat) :
    addedEvents (attachEntry now added) = added := by
  simp [addedEvents, attachEntry]

def OpenCase.recognises (case : OpenCase) (e : SourceEvent) : Prop :=
  if case.memberEventKeys = [] then e.id ∈ case.memberEventIds else e.key ∈ case.memberEventKeys

instance (case : OpenCase) (e : SourceEvent) : Decidable (case.recognises e) := by
  unfold OpenCase.recognises
  infer_instance

variable {now : String} {case : OpenCase} {cluster : BuiltCluster}

theorem recognises_of_keys (h : case.memberEventKeys ≠ []) (e : SourceEvent) :
    case.recognises e ↔ e.key ∈ case.priorKeys := by
  simp [OpenCase.recognises, OpenCase.priorKeys, orIds, h]

theorem recognises_of_no_keys (h : case.memberEventKeys = []) (e : SourceEvent) :
    case.recognises e ↔ e.id ∈ case.priorKeys := by
  simp [OpenCase.recognises, OpenCase.priorKeys, orIds, h]

/-- **The new keys** are those of the events that the case does not recognise. -/
theorem newKeys_eq (case : OpenCase) (cluster : BuiltCluster) :
    newKeys case cluster.toCluster =
      (cluster.events.filter fun e => ¬ case.recognises e).map SourceEvent.key := by
  have hincoming : orIds cluster.memberEventKeys cluster.memberEventIds =
      cluster.events.map SourceEvent.key := by
    rw [cluster.keys_events, cluster.ids_events]
    cases cluster.events with
    | nil => rfl
    | cons e es => simp [orIds]
  by_cases hkeys : case.memberEventKeys = []
  · simp only [newKeys, hincoming, hkeys, ne_eq, not_true_eq_false, if_false]
    rw [cluster.ids_events, List.zip_map', List.filter_map, List.map_map]
    simp [Function.comp_def, OpenCase.recognises, hkeys]
  · simp only [newKeys, hincoming, ne_eq, hkeys, not_false_eq_true, if_true]
    rw [List.filter_map]
    simp [Function.comp_def, OpenCase.recognises, OpenCase.priorKeys, orIds, hkeys]

open List

/-! ### A case and the events attached to it -/

structure Membership where
  case : OpenCase
  members : List SourceEvent
  bare : List SourceEvent

/-- One call of `attach_cluster`. -/
structure AttachCall where
  now : String
  cluster : BuiltCluster

def Membership.attach (m : Membership) (call : AttachCall) : Membership where
  case := (attachCluster call.now m.case call.cluster.toCluster).1
  members := (m.members ++ call.cluster.events).eraseDups
  bare := m.bare

def StandsFor (bare : List SourceEvent) (key : String) (e : SourceEvent) : Prop :=
  key = e.key ∨ (e ∈ bare ∧ key = e.id)

/-- Each attached event is represented by exactly one key, and no two share one. -/
structure OneKeyEach (m : Membership) : Prop where
  distinct : m.case.priorKeys.Nodup
  one : ∀ e ∈ m.members, ∃! key, key ∈ m.case.priorKeys ∧ StandsFor m.bare key e
  own : ∀ e ∈ m.members, ∀ e' ∈ m.members, ∀ key ∈ m.case.priorKeys,
    StandsFor m.bare key e → StandsFor m.bare key e' → e' = e

structure Stored (m : Membership) : Prop extends OneKeyEach m where
  members_distinct : m.members.Nodup
  bare_stored : ∀ e ∈ m.bare, e ∈ m.members ∧ e.id ∈ m.case.priorKeys
  legacy : m.case.memberEventKeys = [] → ∀ e ∈ m.members, e ∈ m.bare

def attaching (first : Membership) : Machine Membership AttachCall where
  start := fun m => m = first
  step := fun m call => some (m.attach call)

/-- The membership `m` has grown as a set from `first`, and attaching the last cluster again leaves
the case as it is. -/
structure GrownAsSet (first m : Membership) (last : BuiltCluster) : Prop where
  oneKey : OneKeyEach m
  kept : first.case.priorKeys ⊆ m.case.priorKeys ∧
    first.case.memberEventIds ⊆ m.case.memberEventIds
  added : m.case.totalAdded - first.case.totalAdded = m.members.length - first.members.length
  again : ∀ now, attachCluster now m.case last.toCluster = (m.case, false)

/-- What an attach needs of the case and the cluster: an event that is not a member is not taken
for one, and has a key of its own; a member that the cluster repeats is among the keys by its key
where the case has keys or is about to get them. -/
structure Fits (m : Membership) (cluster : BuiltCluster) : Prop where
  fresh : ∀ e ∈ cluster.events, e ∉ m.members →
    ¬ m.case.recognises e ∧ e.key ∉ m.case.priorKeys ∧
      ∀ e' ∈ m.members ++ cluster.events, e'.key = e.key → e' = e
  qualified : (m.case.memberEventKeys ≠ [] ∨ ∃ e ∈ cluster.events, e ∉ m.members) →
    ∀ e ∈ cluster.events, e ∈ m.members → e.key ∈ m.case.priorKeys

instance (m : Membership) (cluster : BuiltCluster) : Decidable (Fits m cluster) :=
  decidable_of_iff
    ((∀ e ∈ cluster.events, e ∉ m.members →
      ¬ m.case.recognises e ∧ e.key ∉ m.case.priorKeys ∧
        ∀ e' ∈ m.members ++ cluster.events, e'.key = e.key → e' = e) ∧
    ((m.case.memberEventKeys ≠ [] ∨ ∃ e ∈ cluster.events, e ∉ m.members) →
      ∀ e ∈ cluster.events, e ∈ m.members → e.key ∈ m.case.priorKeys))
    ⟨fun h => ⟨h.1, h.2⟩, fun h => ⟨h.fresh, h.qualified⟩⟩

/-! ### One attach -/

section Step

variable {first m : Membership} {call : AttachCall}

def mergedKeys (case : OpenCase) (cluster : Cluster) : List String :=
  (case.priorKeys ++ newKeys case cluster).eraseDups

theorem priorKeys_subset_mergedKeys (case : OpenCase) (cluster : Cluster) :
    case.priorKeys ⊆ mergedKeys case cluster := by
  intro key hkey
  simp [mergedKeys, mem_eraseDups, hkey]

variable {case : OpenCase} {e : SourceEvent} {key : String}

theorem mem_mergedKeys : key ∈ mergedKeys case cluster.toCluster ↔ key ∈ case.priorKeys ∨
      ∃ e ∈ cluster.events, ¬ case.recognises e ∧ e.key = key := by
  simp [mergedKeys, mem_eraseDups, newKeys_eq, and_assoc]

theorem attachCluster_of_no_new {cluster : Cluster}
    (h : (mergedKeys case cluster).length = case.priorKeys.length) :
    attachCluster now case cluster = (case, false) := by
  simp only [mergedKeys] at h
  simp [attachCluster, h]

theorem priorKeys_attach (hdistinct : m.case.priorKeys.Nodup) :
    (m.attach call).case.priorKeys = mergedKeys m.case call.cluster.toCluster := by
  simp only [Membership.attach, attachCluster]
  have hgrown := eraseDups_append_of_nodup hdistinct (newKeys m.case call.cluster.toCluster)
  split
  · rename_i hsame
    rw [mergedKeys, hgrown]
    rw [hgrown, length_append, Nat.add_eq_left, length_eq_zero_iff] at hsame
    simp [hsame]
  · rename_i hnew
    have hsome : mergedKeys m.case call.cluster.toCluster ≠ [] := by
      intro hnil
      rw [mergedKeys] at hnil
      rw [hnil] at hnew
      rw [hgrown, append_eq_nil_iff] at hnil
      simp [hnil.1] at hnew
    simp only [OpenCase.priorKeys, orIds]
    exact if_neg hsome

theorem case_attach_of_no_keys (h : (m.attach call).case.memberEventKeys = []) :
    (m.attach call).case = m.case := by
  simp only [Membership.attach, attachCluster] at h ⊢
  split at h
  · rename_i hsame
    rw [if_pos hsame]
  · rename_i hnew
    simp only at h
    rw [h] at hnew
    rw [eq_nil_iff_forall_not_mem] at h
    have hnone : m.case.priorKeys = [] := by
      apply eq_nil_iff_forall_not_mem.mpr
      intro key hkey
      exact h key (priorKeys_subset_mergedKeys _ _ hkey)
    simp [hnone] at hnew

theorem ids_attach : m.case.memberEventIds ⊆ (m.attach call).case.memberEventIds := by
  intro id hid
  simp only [Membership.attach, attachCluster]
  split
  · exact hid
  · simp [mem_eraseDups, hid]

/-- **What an attach records** is by how much the keys of the case have grown. -/
theorem totalAdded_attach (hdistinct : m.case.priorKeys.Nodup) :
    (m.attach call).case.totalAdded = m.case.totalAdded +
      ((newKeys m.case call.cluster.toCluster).removeAll m.case.priorKeys).toFinset.card := by
  have hlength := length_eraseDups_append hdistinct (newKeys m.case call.cluster.toCluster)
  simp only [Membership.attach, attachCluster]
  split
  · rename_i hsame
    rw [hlength] at hsame
    dsimp only
    omega
  · simp only [OpenCase.totalAdded, map_append, sum_append, map_cons, map_nil,
      sum_cons, sum_nil, addedEvents_attachEntry, hlength]
    omega

theorem mem_members_attach :
    e ∈ (m.attach call).members ↔ e ∈ m.members ∨ e ∈ call.cluster.events := by
  simp [Membership.attach, mem_eraseDups]

theorem length_members_attach (hdistinct : m.members.Nodup) :
    (m.attach call).members.length =
      m.members.length + (call.cluster.events.removeAll m.members).toFinset.card :=
  length_eraseDups_append hdistinct _

theorem attach_again_iff (hdistinct : case.priorKeys.Nodup) :
    (∀ now, attachCluster now case cluster.toCluster = (case, false)) ↔
      ∀ e ∈ cluster.events, case.recognises e ∨ e.key ∈ case.priorKeys := by
  have hsame : (mergedKeys case cluster.toCluster).length = case.priorKeys.length ↔
      ∀ e ∈ cluster.events, case.recognises e ∨ e.key ∈ case.priorKeys := by
    rw [mergedKeys, eraseDups_append_eq_self hdistinct, newKeys_eq]
    simp only [List.forall_mem_map, mem_filter, decide_eq_true_eq, and_imp,
      or_iff_not_imp_left]
  rw [← hsame]
  constructor
  · intro hagain
    by_contra hne
    have := congrArg Prod.snd (hagain "")
    simp only [mergedKeys] at hne
    simp [attachCluster, hne] at this
  · intro hlength now
    exact attachCluster_of_no_new hlength

/-! ### The condition is exact -/

def Repeats (m : Membership) (cluster : BuiltCluster) : Prop :=
  ∀ e ∈ cluster.events, e ∈ m.members → m.case.recognises e ∨ e.key ∈ m.case.priorKeys

variable (h : Stored m)

include h

theorem Stored.bare_of_no_key (he : e ∈ m.members)
    (hkey : e.key ∉ m.case.priorKeys) : e ∈ m.bare ∧ e.id ∈ m.case.priorKeys := by
  obtain ⟨key, ⟨hin, hstands⟩, _⟩ := h.one e he
  rcases hstands with rfl | ⟨hbare, rfl⟩
  · exact absurd hin hkey
  · exact ⟨hbare, hin⟩

theorem Stored.recognises_of_legacy (hkeys : m.case.memberEventKeys = [])
    (he : e ∈ m.members) : m.case.recognises e :=
  (recognises_of_no_keys hkeys e).mpr (h.bare_stored e (h.legacy hkeys e he)).2

omit h in
theorem newKeys_removeAll (hrepeats : Repeats m call.cluster) :
    ((newKeys m.case call.cluster.toCluster).removeAll m.case.priorKeys).toFinset =
      ((((call.cluster.events.removeAll m.members).filter fun e => ¬ m.case.recognises e).map
        SourceEvent.key).removeAll m.case.priorKeys).toFinset := by
  ext key
  simp only [newKeys_eq, List.mem_toFinset, mem_removeAll, List.mem_map, mem_filter,
    decide_eq_true_eq]
  constructor
  · rintro ⟨⟨e, ⟨he, hnot⟩, rfl⟩, hkey⟩
    have hnew : e ∉ m.members := by
      intro hmem
      rcases hrepeats e he hmem with hrec | hin
      · exact hnot hrec
      · exact hkey hin
    exact ⟨⟨e, ⟨⟨he, hnew⟩, hnot⟩, rfl⟩, hkey⟩
  · rintro ⟨⟨e, ⟨⟨he, _⟩, hnot⟩, rfl⟩, hkey⟩
    exact ⟨⟨e, ⟨he, hnot⟩, rfl⟩, hkey⟩

/-- **The counts agree** exactly if each new event is taken for new and has a key of its own. -/
theorem counts_agree_iff (hrepeats : Repeats m call.cluster) :
    ((m.attach call).case.totalAdded - m.case.totalAdded =
        (m.attach call).members.length - m.members.length) ↔
      ∀ e ∈ call.cluster.events, e ∉ m.members → ¬ m.case.recognises e ∧
        e.key ∉ m.case.priorKeys ∧
        ∀ e' ∈ call.cluster.events, e' ∉ m.members → e'.key = e.key → e' = e := by
  have hcount := card_named_eq_iff SourceEvent.key (fun e => decide (¬ m.case.recognises e))
    m.case.priorKeys (call.cluster.events.removeAll m.members)
  rw [← newKeys_removeAll hrepeats] at hcount
  simp only [mem_removeAll, decide_eq_true_eq, and_imp] at hcount
  rw [← hcount, totalAdded_attach h.distinct, length_members_attach h.members_distinct]
  omega

theorem key_of_member (hfits : Fits m call.cluster) (he : e ∈ m.members)
    (hin : key ∈ (m.attach call).case.priorKeys) (hstands : StandsFor m.bare key e) :
    key ∈ m.case.priorKeys := by
  rw [priorKeys_attach h.distinct, mem_mergedKeys] at hin
  rcases hin with hold | ⟨e', he', hnot, rfl⟩
  · exact hold
  · by_cases hmem : e' ∈ m.members
    · rcases eq_or_ne m.case.memberEventKeys [] with hkeys | hkeys
      · exact absurd (h.recognises_of_legacy hkeys hmem) hnot
      · exact hfits.qualified (.inl hkeys) e' he' hmem
    · obtain ⟨_, hfresh, hown⟩ := hfits.fresh e' he' hmem
      rcases hstands with hkey | ⟨hbare, hid⟩
      · have := hown e (mem_append_left _ he) hkey.symm
        exact absurd (this ▸ he) hmem
      · exact absurd (hid ▸ (h.bare_stored e hbare).2) hfresh

theorem key_of_new (he : e ∉ m.members) (hstands : StandsFor m.bare key e) : key = e.key := by
  rcases hstands with hkey | ⟨hbare, _⟩
  · exact hkey
  · exact absurd (h.bare_stored e hbare).1 he

theorem Fits.repeats (hfits : Fits m call.cluster) : Repeats m call.cluster := by
  intro e he hmem
  rcases eq_or_ne m.case.memberEventKeys [] with hkeys | hkeys
  · exact .inl (h.recognises_of_legacy hkeys hmem)
  · exact .inr (hfits.qualified (.inl hkeys) e he hmem)

/-- **An attach that fits** keeps one key for each event. -/
theorem oneKeyEach_attach (hfits : Fits m call.cluster) : OneKeyEach (m.attach call) := by
  have hbare : (m.attach call).bare = m.bare := rfl
  have hkeys : (m.attach call).case.priorKeys = _ := priorKeys_attach h.distinct
  have hnewKey : ∀ e ∈ call.cluster.events, e ∉ m.members →
      e.key ∈ (m.attach call).case.priorKeys := by
    intro e he hnew
    rw [hkeys, mem_mergedKeys]
    exact .inr ⟨e, he, (hfits.fresh e he hnew).1, rfl⟩
  constructor
  · rw [hkeys]
    exact nodup_eraseDups _
  · intro e he
    by_cases hmem : e ∈ m.members
    · obtain ⟨key, ⟨hin, hstands⟩, honly⟩ := h.one e hmem
      refine ⟨key, ⟨?_, hstands⟩, ?_⟩
      · rw [hkeys]
        exact priorKeys_subset_mergedKeys _ _ hin
      · rintro key' ⟨hin', hstands'⟩
        exact honly key' ⟨key_of_member h hfits hmem hin' hstands', hstands'⟩
    · have hev := (mem_members_attach.mp he).resolve_left hmem
      refine ⟨e.key, ⟨hnewKey e hev hmem, .inl rfl⟩, ?_⟩
      rintro key' ⟨_, hstands'⟩
      exact key_of_new h hmem hstands'
  · intro e he e' he' key hin hstands hstands'
    by_cases hmem : e ∈ m.members
    · by_cases hmem' : e' ∈ m.members
      · exact h.own e hmem e' hmem' key (key_of_member h hfits hmem hin hstands) hstands hstands'
      · have hev' := (mem_members_attach.mp he').resolve_left hmem'
        rw [key_of_new h hmem' hstands'] at hin hstands
        exact absurd (key_of_member h hfits hmem hin hstands) (hfits.fresh e' hev' hmem').2.1
    · have hev := (mem_members_attach.mp he).resolve_left hmem
      rw [key_of_new h hmem hstands] at hin hstands'
      by_cases hmem' : e' ∈ m.members
      · exact absurd (key_of_member h hfits hmem' hin hstands') (hfits.fresh e hev hmem).2.1
      · have hev' := (mem_members_attach.mp he').resolve_left hmem'
        exact (hfits.fresh e hev hmem).2.2 e' (mem_append_right _ hev')
          (key_of_new h hmem' hstands').symm

theorem stored_attach (hfits : Fits m call.cluster) : Stored (m.attach call) where
  toOneKeyEach := oneKeyEach_attach h hfits
  members_distinct := nodup_eraseDups _
  bare_stored := by
    intro e he
    obtain ⟨hmem, hid⟩ := h.bare_stored e he
    refine ⟨mem_members_attach.mpr (.inl hmem), ?_⟩
    rw [priorKeys_attach h.distinct]
    exact priorKeys_subset_mergedKeys _ _ hid
  legacy := by
    intro hkeys e he
    have hcase := case_attach_of_no_keys hkeys
    rcases mem_members_attach.mp he with hmem | hev
    · exact h.legacy (hcase ▸ hkeys) e hmem
    · by_contra hnot
      have hnew : e ∉ m.members := fun hmem => hnot (h.legacy (hcase ▸ hkeys) e hmem)
      obtain ⟨hunknown, hfresh, _⟩ := hfits.fresh e hev hnew
      apply hfresh
      rw [← hcase, priorKeys_attach h.distinct, mem_mergedKeys]
      exact .inr ⟨e, hev, hunknown, rfl⟩

/-- `first` has grown to `m` as the events attached to it have. -/
structure GrownFrom (first m : Membership) : Prop where
  kept : first.case.priorKeys ⊆ m.case.priorKeys ∧
    first.case.memberEventIds ⊆ m.case.memberEventIds
  added : m.case.totalAdded - first.case.totalAdded = m.members.length - first.members.length

theorem GrownFrom.kept_attach (hgrown : GrownFrom first m) :
    first.case.priorKeys ⊆ (m.attach call).case.priorKeys ∧
      first.case.memberEventIds ⊆ (m.attach call).case.memberEventIds := by
  rw [priorKeys_attach h.distinct]
  exact ⟨List.Subset.trans hgrown.kept.1 (priorKeys_subset_mergedKeys _ _),
    List.Subset.trans hgrown.kept.2 ids_attach⟩

theorem grownAsSet_of_fits (hgrown : GrownFrom first m)
    (hfits : Fits m call.cluster) : GrownAsSet first (m.attach call) call.cluster where
  oneKey := oneKeyEach_attach h hfits
  kept := hgrown.kept_attach h
  added := by
    have hcounts := (counts_agree_iff h (hfits.repeats h)).mpr fun e he hnew =>
      have hfresh := hfits.fresh e he hnew
      ⟨hfresh.1, hfresh.2.1, fun e' he' _ => hfresh.2.2 e' (mem_append_right _ he')⟩
    have := hgrown.added
    omega
  again := by
    have hkeys : (m.attach call).case.priorKeys = _ := priorKeys_attach h.distinct
    apply (attach_again_iff (oneKeyEach_attach h hfits).distinct).mpr
    intro e he
    rw [hkeys, mem_mergedKeys]
    by_cases hmem : e ∈ m.members
    · by_cases hgrows : m.case.memberEventKeys ≠ [] ∨ ∃ e ∈ call.cluster.events, e ∉ m.members
      · exact .inr (.inl (hfits.qualified hgrows e he hmem))
      · -- nothing is new to a case without keys, so it stays as it is
        push Not at hgrows
        have hnone : newKeys m.case call.cluster.toCluster = [] := by
          rw [newKeys_eq, map_eq_nil_iff, filter_eq_nil_iff]
          intro e' he'
          simpa using h.recognises_of_legacy hgrows.1 (hgrows.2 e' he')
        have hcase : (m.attach call).case = m.case := by
          simp [Membership.attach, attachCluster, hnone, eraseDups_of_nodup h.distinct]
        rw [hcase]
        exact .inl (h.recognises_of_legacy hgrows.1 hmem)
    · exact .inr (.inr ⟨e, he, (hfits.fresh e he hmem).1, rfl⟩)

omit h in
theorem OneKeyEach.key_of_id (h : OneKeyEach m) (he : e ∈ m.members)
    (hbare : e ∈ m.bare) (hid : e.id ∈ m.case.priorKeys) (hkey : e.key ∈ m.case.priorKeys) :
    e.key = e.id := by
  obtain ⟨key, _, honly⟩ := h.one e he
  rw [honly e.key ⟨hkey, .inl rfl⟩, honly e.id ⟨hid, .inr ⟨hbare, rfl⟩⟩]

theorem key_before (hone : OneKeyEach (m.attach call))
    (he : e ∈ m.members) (hkey : e.key ∈ (m.attach call).case.priorKeys) :
    e.key ∈ m.case.priorKeys := by
  by_contra hnot
  obtain ⟨hbare, hid⟩ := h.bare_of_no_key he hnot
  have hid' : e.id ∈ (m.attach call).case.priorKeys := by
    rw [priorKeys_attach h.distinct]
    exact priorKeys_subset_mergedKeys _ _ hid
  have heq := hone.key_of_id (mem_members_attach.mpr (.inl he)) hbare hid' hkey
  exact hnot (heq ▸ hid)

theorem fits_of_grownAsSet (hgrown : GrownFrom first m)
    (hset : GrownAsSet first (m.attach call) call.cluster) : Fits m call.cluster := by
  have hadded : (m.attach call).case.totalAdded - m.case.totalAdded =
      (m.attach call).members.length - m.members.length := by
    have := hset.added
    have := hgrown.added
    omega
  have hqualified : (m.case.memberEventKeys ≠ [] ∨ ∃ e ∈ call.cluster.events, e ∉ m.members) →
      ∀ e ∈ call.cluster.events, e ∈ m.members → e.key ∈ m.case.priorKeys := by
    intro hgrows e he hmem
    apply key_before h hset.oneKey hmem
    by_cases hkeys : (m.attach call).case.memberEventKeys = []
    · -- the case was left as it was, so nothing was new
      have hcase := case_attach_of_no_keys hkeys
      obtain hsome | ⟨e', he', hnew⟩ := hgrows
      · exact absurd (hcase ▸ hkeys) hsome
      · rw [hcase, length_members_attach h.members_distinct] at hadded
        have hnone : (call.cluster.events.removeAll m.members).toFinset = ∅ := by
          apply Finset.card_eq_zero.mp
          omega
        rw [toFinset_eq_empty_iff] at hnone
        exact absurd (mem_removeAll.mpr ⟨he', hnew⟩) (hnone ▸ not_mem_nil)
    · rcases (attach_again_iff hset.oneKey.distinct).mp hset.again e he with hrec | hin
      · exact (recognises_of_keys hkeys e).mp hrec
      · exact hin
  have hrepeats : Repeats m call.cluster := by
    intro e he hmem
    rcases eq_or_ne m.case.memberEventKeys [] with hkeys | hkeys
    · exact .inl (h.recognises_of_legacy hkeys hmem)
    · exact .inr (hqualified (.inl hkeys) e he hmem)
  have hfresh := (counts_agree_iff h hrepeats).mp hadded
  refine ⟨?_, hqualified⟩
  intro e he hnew
  obtain ⟨hunknown, hkey, hown⟩ := hfresh e he hnew
  refine ⟨hunknown, hkey, ?_⟩
  intro e' he' hsame
  by_cases hmem : e' ∈ m.members
  · -- a member with the key of a new event would have it before
    have hin : e'.key ∈ (m.attach call).case.priorKeys := by
      rw [priorKeys_attach h.distinct, mem_mergedKeys]
      exact .inr ⟨e, he, hunknown, hsame.symm⟩
    exact absurd (hsame ▸ key_before h hset.oneKey hmem hin) hkey
  · exact hown e' ((mem_append.mp he').resolve_left hmem) hmem hsame

/-- **One attach**: the case grows as a set exactly if it fits what it is given. -/
theorem grownAsSet_iff (hgrown : GrownFrom first m) :
    GrownAsSet first (m.attach call) call.cluster ↔ Fits m call.cluster :=
  ⟨fits_of_grownAsSet h hgrown, grownAsSet_of_fits h hgrown⟩

end Step

/-- **Case membership is a set under attach** exactly as long as every attach fits: in every run,
each attach leaves one key for each source event, keeps all members, records what was new, and
would do nothing if repeated, if and only if each meets the condition on the case and the
cluster. -/
theorem membership_is_set_iff {first : Membership} (hfirst : Stored first)
    (calls : List AttachCall) :
    (attaching first).Throughout
        (fun m call => GrownAsSet first (m.attach call) call.cluster) first calls ↔
      (attaching first).Throughout (fun m call => Fits m call.cluster) first calls := by
  apply Machine.throughout_congr (I := fun m => Stored m ∧ GrownFrom first m)
  · rintro m call ⟨hstored, hgrown⟩
    exact grownAsSet_iff hstored hgrown
  · rintro m call m' ⟨hstored, hgrown⟩ hfits hstep
    cases hstep
    have hset := grownAsSet_of_fits hstored hgrown hfits
    exact ⟨stored_attach hstored hfits, hset.kept, hset.added⟩
  · exact ⟨hfirst, ⟨List.Subset.refl _, List.Subset.refl _⟩, by omega⟩

def pairCluster : BuiltCluster where
  signature := "sig"
  legacySignature := none
  entity := (.host, "web-1")
  groupBy := .host
  ruleValues := []
  memberEventIds := ["e1", "e2"]
  memberEventKeys := ["logs\x1fe1", "logs\x1fe2"]
  memberEvents := [{ id := "e1", index := "logs" }, { id := "e2", index := "logs" }]
  firstSeenMillis := 0
  lastSeenMillis := 0
  count := 2
  triggerReason := none
  sourceId := none
  sourceName := none
  isAlert := false
  sourceIds := []
  autoInvestigateEligible := true
  feedIds := []
  ids_eq := rfl
  keys_eq := by decide

def legacyCase : Membership where
  case := { memberEventIds := ["e1"] }
  members := [⟨"logs", "e1"⟩]
  bare := [⟨"logs", "e1"⟩]

def qualifiedCase : Membership where
  case := { memberEventIds := ["e1"], memberEventKeys := ["logs\x1fe1"] }
  members := [⟨"logs", "e1"⟩]
  bare := []

theorem stored_legacyCase : Stored legacyCase := by
  refine ⟨⟨?_, ?_, ?_⟩, ?_, ?_, ?_⟩
  · simp [legacyCase, OpenCase.priorKeys, orIds]
  · simp only [legacyCase, OpenCase.priorKeys, orIds, StandsFor, forall_mem_singleton]
    exact ⟨"e1", by simp, by simp⟩
  · simp [legacyCase]
  · simp [legacyCase]
  · simp [legacyCase, OpenCase.priorKeys, orIds]
  · simp [legacyCase]

theorem stored_qualifiedCase : Stored qualifiedCase := by
  have hkey : (SourceEvent.mk "logs" "e1").key = "logs\x1fe1" := by decide
  refine ⟨⟨?_, ?_, ?_⟩, ?_, ?_, ?_⟩
  · simp [qualifiedCase, OpenCase.priorKeys, orIds]
  · simp [qualifiedCase, OpenCase.priorKeys, orIds, StandsFor, hkey]
  · simp [qualifiedCase]
  · simp [qualifiedCase]
  · simp [qualifiedCase]
  · simp [qualifiedCase]

/-- A case with keys takes the pair, and takes nothing when it comes again. -/
theorem membership_is_set_of_keys :
    (attaching qualifiedCase).Throughout
      (fun m call => GrownAsSet qualifiedCase (m.attach call) call.cluster) qualifiedCase
      [⟨"t1", pairCluster⟩, ⟨"t2", pairCluster⟩] :=
  (membership_is_set_iff stored_qualifiedCase _).mpr (by decide)

/-- **A member is attached a second time**: the case without keys takes the second event of the
pair, and when the pair comes again it takes the first one, which it has had from the start. -/
theorem legacy_member_attached_twice :
    Stored legacyCase ∧
    ((attaching legacyCase).run legacyCase [⟨"t1", pairCluster⟩, ⟨"t2", pairCluster⟩]).map
        (fun m => (m.case.memberEventKeys, m.members.length, m.case.totalAdded)) =
      some (["e1", "logs\x1fe2", "logs\x1fe1"], 2, 2) ∧
    ¬ (attaching legacyCase).Throughout
      (fun m call => GrownAsSet legacyCase (m.attach call) call.cluster) legacyCase
      [⟨"t1", pairCluster⟩, ⟨"t2", pairCluster⟩] := by
  refine ⟨stored_legacyCase, by decide, ?_⟩
  rintro ⟨hfirst, -⟩
  have hfits := fits_of_grownAsSet stored_legacyCase
    ⟨⟨List.Subset.refl _, List.Subset.refl _⟩, by omega⟩ hfirst
  revert hfits
  decide

end AgenticKibana.Correlation
