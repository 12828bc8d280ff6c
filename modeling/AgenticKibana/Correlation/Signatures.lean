import AgenticKibana.Correlation.Model
import AgenticKibana.Library.UnionFind
import Mathlib.Data.List.Lex

/-!
# Cross-source correlation, and what a signature names

The second pass groups open cases that share an entity in one time bucket, if they come from
enough sources, and collapses groups that overlap and components that were persisted earlier.  A
signature names its source, entity type and value exactly where no configured source id reads as
an entity type with or without more behind a bar, neither alone nor behind another id and a bar.
-/

namespace AgenticKibana.Correlation

open AgenticKibana.Library

structure CrossSourceItem where
  id : String
  sourceId : String
  ts : Int
  entities : List EntityKey
  deriving DecidableEq

structure ComponentSeed where
  crossSourceClusterId : String
  members : List String

structure CrossSourceConfig where
  enabled : Bool := true
  timeWindowSeconds : Nat := 300
  minSources : Nat := 2

/-- What the pass returns of a component. -/
structure LinkGroup where
  crossSourceClusterId : String
  entityType : EntityType
  entityValue : String
  members : List String
  deriving DecidableEq

abbrev SlotKey : Type := EntityType × String × Int

def CrossSourceConfig.window (cfg : CrossSourceConfig) : Nat := max 1 cfg.timeWindowSeconds

def CrossSourceConfig.floor (cfg : CrossSourceConfig) : Nat := max 2 cfg.minSources

def crossSourceSignature (entityType : EntityType) (value : String) (ts : Int)
    (windowSeconds : Nat) : String :=
  let windowMs : Int := (max 1 windowSeconds : Nat) * 1000
  let bucket := if ts = 0 then 0 else ts / windowMs
  stableSignature ["xsrc", entityType.value, value, toString bucket]

/-- `_valid_cross_source_cluster_id`. -/
def validClusterId (text : String) : Bool :=
  text.length = 32 && text.toList.all fun c => "0123456789abcdef".toList.contains c

section Slots

variable (cfg : CrossSourceConfig)

def bucketOf (item : CrossSourceItem) : Int :=
  if item.ts = 0 then 0 else item.ts / ((cfg.window : Int) * 1000)

def CrossSourceItem.slots (item : CrossSourceItem) : List SlotKey :=
  (item.entities.filter fun e => e.2 ≠ "").map fun e => (e.1, e.2, bucketOf cfg item)

def exposures (items : List CrossSourceItem) : List (SlotKey × CrossSourceItem) :=
  items.flatMap fun item => (item.slots cfg).map fun key => (key, item)

def slotRank (key : SlotKey) : String ×ₗ String ×ₗ Int :=
  toLex (key.1.value, toLex (key.2.1, key.2.2))

def sourceCount (items : List CrossSourceItem) : Nat :=
  (items.map CrossSourceItem.sourceId).dedup.length

def freshId (key : SlotKey) : String :=
  crossSourceSignature key.1 key.2.1 (key.2.2 * ((cfg.window : Int) * 1000)) cfg.window

def slotGroup (key : SlotKey) (exposed : List (SlotKey × CrossSourceItem)) : Option LinkGroup :=
  if sourceCount (exposed.map Prod.snd) < cfg.floor then none
  else some
    { crossSourceClusterId := freshId cfg key
      entityType := key.1
      entityValue := key.2.1
      members := sortedSet (exposed.map fun e => e.2.id) }

def eligibleGroups (items : List CrossSourceItem) : List LinkGroup :=
  let buckets := Dict.groupBy (fun e : SlotKey × CrossSourceItem => some e.1) (exposures cfg items)
  (buckets.entries.mergeSort fun a b => slotRank a.1 ≤ slotRank b.1).filterMap fun e =>
    slotGroup cfg e.1 e.2

end Slots

/-! ### Collapsing -/

section Collapse

variable (cfg : CrossSourceConfig) (items : List CrossSourceItem)

def sourceById : Dict String String := Dict.ofList (items.map fun item => (item.id, item.sourceId))

/-- The ids in `items`. -/
def knownIds : List String := (sourceById items).keys

/-- `sorted(set(members) & known_ids)`. -/
def knownMembers (members : List String) : List String :=
  sortedSet (members.filter fun id => (knownIds items).contains id)

def idSourceCount (ids : List String) : Nat :=
  (ids.filterMap fun id => (sourceById items).get? id).dedup.length

def validSeed (seed : ComponentSeed) : Option ComponentSeed :=
  let members := knownMembers items seed.members
  if members.length < 2 then none
  else if idSourceCount items members < cfg.floor then none
  else some
    { crossSourceClusterId :=
        if validClusterId seed.crossSourceClusterId then seed.crossSourceClusterId else ""
      members }

def validSeeds (seeds : List ComponentSeed) : List ComponentSeed :=
  seeds.filterMap (validSeed cfg items)

def joinedLists (groups : List LinkGroup) (seeds : List ComponentSeed) : List (List String) :=
  (groups.map fun group => knownMembers items group.members) ++
    (validSeeds cfg items seeds).map ComponentSeed.members

/-- `find`, once all is joined; it compresses paths, and so changes no root. -/
def rootOf (groups : List LinkGroup) (seeds : List ComponentSeed) (id : String) : String :=
  UnionFind.root (knownIds items)
    (UnionFind.unionAll (knownIds items) (fun x => x) (joinedLists cfg items groups seeds)) id

def groupRank (group : LinkGroup) : String ×ₗ String ×ₗ String ×ₗ List String :=
  toLex (group.entityType.value, toLex (group.entityValue,
    toLex (group.crossSourceClusterId, group.members)))

def canonicalGroup : List LinkGroup → Option LinkGroup
  | [] => none
  | group :: groups =>
    some (groups.foldl (fun best g => if groupRank g < groupRank best then g else best) group)

/-- A component: `rawGroups` are its eligible groups, `seedIds` the ids of its valid seeds. -/
def collapseComponent (members : List String) (rawGroups : List LinkGroup) (seedIds : List String) :
    Option LinkGroup :=
  (canonicalGroup rawGroups).map fun canonical =>
    let rawIds := (rawGroups.map LinkGroup.crossSourceClusterId).filter fun id => validClusterId id
    { crossSourceClusterId := (seedIds.min?.or rawIds.min?).getD canonical.crossSourceClusterId
      entityType := canonical.entityType
      entityValue := canonical.entityValue
      members := members.mergeSort fun a b => a ≤ b }

/-- `_collapse_cross_source_components`. -/
def collapseComponents (groups : List LinkGroup) (seeds : List ComponentSeed) : List LinkGroup :=
  let root := rootOf cfg items groups seeds
  let rawByRoot := Dict.groupBy
    (fun group => (knownMembers items group.members).head?.map root) groups
  let seedsByRoot := Dict.groupBy
    (fun seed => if seed.crossSourceClusterId = "" then none else seed.members.head?.map root)
    (validSeeds cfg items seeds)
  let membersByRoot := Dict.groupBy (fun id => some (root id)) (knownIds items)
  let collapsed := rawByRoot.entries.filterMap fun e =>
    collapseComponent ((membersByRoot.get? e.1).getD []) e.2
      (((seedsByRoot.get? e.1).getD []).map ComponentSeed.crossSourceClusterId)
  collapsed.mergeSort fun a b =>
    toLex (a.crossSourceClusterId, a.members) ≤ toLex (b.crossSourceClusterId, b.members)

end Collapse

def crossSourceCorrelate (cfg : CrossSourceConfig) (items : List CrossSourceItem)
    (seeds : List ComponentSeed) : List LinkGroup :=
  if cfg.enabled = false ∨ items = [] then []
  else collapseComponents cfg items (eligibleGroups cfg items) seeds

/-! ### Signatures -/

/-- `stable_signature` over any hash. -/
def hashed (hash : String → String) (parts : List String) : String := hash (signatureText parts)

theorem stableSignature_eq : stableSignature = hashed digest := rfl

def crossSourceParts (entityType value : String) (ts windowSeconds : Int) : List String :=
  ["xsrc", entityType, value, toString (if ts = 0 then 0 else ts / (max 1 windowSeconds * 1000))]

/-- The parts of the key in `_candidate_custom_id`. -/
def candidateParts (signature : String) (bucket : Int) : List String :=
  ["evdet", signature, toString bucket]

structure Incident where
  sourceId : Option String
  key : EntityKey
deriving DecidableEq

def Incident.parts (x : Incident) : List String := clusterParts x.key x.sourceId

def Incident.From (sources : Set String) (x : Incident) : Prop :=
  ∀ s, x.sourceId = some s → s ∈ sources

/-- **Signatures identify incidents** of some sources: they tell two of them apart, and from the
signatures of the other kinds. -/
structure Identify (hash : String → String) (sources : Set String) : Prop where
  incidents : ∀ x y : Incident, x.From sources → y.From sources →
    hashed hash x.parts = hashed hash y.parts → x = y
  crossSource : ∀ x : Incident, ∀ entityType value ts windowSeconds,
    hashed hash x.parts ≠ hashed hash (crossSourceParts entityType value ts windowSeconds)
  candidates : ∀ x : Incident, ∀ signature bucket,
    hashed hash x.parts ≠ hashed hash (candidateParts signature bucket)

def Typed (text : List Char) : Prop :=
  ∃ et : EntityType, text = et.value.toList ∨ ∃ rest, text = et.value.toList ++ '|' :: rest

structure Separate (sources : Set String) : Prop where
  nonempty : "" ∉ sources
  untyped : ∀ s ∈ sources, ¬ Typed s.toList
  apart : ∀ s ∈ sources, ∀ s' ∈ sources, ∀ rest, s'.toList = s.toList ++ '|' :: rest → ¬ Typed rest

/-! ### The text of a signature -/

section Texts

variable {x : Incident} {et et' : EntityType} {v v' : List Char}

/-- What stands before the type: the source id and a bar, if there is one. -/
def Incident.lead (x : Incident) : List Char :=
  match nonempty x.sourceId with
  | some s => s.toList ++ ['|']
  | none => []

theorem Incident.lead_of_none {x : Incident} (h : nonempty x.sourceId = none) : x.lead = [] := by
  rw [Incident.lead, h]

theorem Incident.lead_of_some {x : Incident} {s : String} (h : nonempty x.sourceId = some s) :
    x.lead = s.toList ++ ['|'] := by
  rw [Incident.lead, h]

def Incident.text (x : Incident) : List Char :=
  x.lead ++ x.key.1.value.toList ++ '|' :: x.key.2.toList

theorem text_parts (x : Incident) :
    (signatureText x.parts).toList = "cluster|".toList ++ x.text := by
  cases h : nonempty x.sourceId <;>
    simp [signatureText, Incident.parts, clusterParts, Incident.text, Incident.lead, h]

theorem bar_notMem_value (et : EntityType) : '|' ∉ et.value.toList := by
  cases et <;> decide

theorem cut_bar {a b c d : List Char} (ha : '|' ∉ a) (h : a ++ '|' :: b = c ++ '|' :: d) :
    (c = a ∧ b = d) ∨ ∃ w, c = a ++ '|' :: w ∧ b = w ++ '|' :: d := by
  rcases List.append_eq_append_iff.mp h with ⟨e, hc, hb⟩ | ⟨e, hac, hd⟩
  · cases e with
    | nil => exact .inl ⟨by simpa using hc, by simpa using hb⟩
    | cons bar w =>
      obtain ⟨rfl, hrest⟩ := List.cons.inj hb
      exact .inr ⟨w, hc, hrest⟩
  · cases e with
    | nil => exact .inl ⟨by simpa using hac.symm, by simpa using hd.symm⟩
    | cons bar w =>
      obtain ⟨rfl, -⟩ := List.cons.inj hd
      exact absurd (by simp [hac]) ha

theorem value_inj (h : et.value.toList ++ '|' :: v = et'.value.toList ++ '|' :: v') :
    et = et' ∧ v = v' := by
  rcases cut_bar (bar_notMem_value et) h with ⟨het, hv⟩ | ⟨w, het, -⟩
  · exact ⟨EntityType.value_injective (String.toList_injective het.symm), hv⟩
  · exact absurd (het ▸ by simp) (bar_notMem_value et')

theorem typed_of_text {rest : List Char} (h : et.value.toList ++ '|' :: v = rest ++ '|' :: v') :
    Typed rest := by
  rcases cut_bar (bar_notMem_value et) h with ⟨hrest, -⟩ | ⟨w, hrest, -⟩
  · exact ⟨et, .inl hrest⟩
  · exact ⟨et, .inr ⟨w, hrest⟩⟩

theorem same_source {s s' : List Char}
    (h : s ++ '|' :: (et.value.toList ++ '|' :: v) = s' ++ '|' :: (et'.value.toList ++ '|' :: v'))
    (hlength : s.length ≤ s'.length) :
    (s' = s ∧ et = et' ∧ v = v') ∨ ∃ rest, s' = s ++ '|' :: rest ∧ Typed rest := by
  rcases List.append_eq_append_iff.mp h with ⟨e, hs, hrest⟩ | ⟨e, hs, hrest⟩
  · cases e with
    | nil => exact .inl ⟨by simpa using hs, value_inj (List.cons.inj hrest).2⟩
    | cons bar rest =>
      obtain ⟨rfl, htext⟩ := List.cons.inj hrest
      exact .inr ⟨rest, hs, typed_of_text htext⟩
  · have hnil : e = [] := by
      rw [hs, List.length_append] at hlength
      exact List.length_eq_zero_iff.mp (by omega)
    subst hnil
    exact .inl ⟨by simpa using hs.symm, value_inj (List.cons.inj hrest).2.symm⟩

/-- The source id of the second incident is that of the first with its type behind it, and more; and
the value of the first has the rest of the second's text. -/
def Misread (x y : Incident) : Prop :=
  ∃ source more, nonempty y.sourceId = some source ∧
    source.toList = x.lead ++ x.key.1.value.toList ++ more ∧
    '|' :: x.key.2.toList = more ++ '|' :: (y.key.1.value.toList ++ '|' :: y.key.2.toList)

theorem lead_append {x y : Incident} {more : List Char} (hkey : x.key ≠ y.key)
    (hlead : y.lead = x.lead ++ more)
    (hrest : x.key.1.value.toList ++ '|' :: x.key.2.toList =
      more ++ (y.key.1.value.toList ++ '|' :: y.key.2.toList)) : Misread x y := by
  have hmore : more ≠ [] := by
    rintro rfl
    obtain ⟨het, hv⟩ := value_inj hrest
    exact hkey (Prod.ext het (String.toList_injective hv))
  obtain ⟨front, bar, rfl⟩ := List.eq_nil_or_concat more |>.resolve_left hmore
  rw [List.concat_eq_append] at hlead hrest
  cases hsource : nonempty y.sourceId with
  | none => simp [Incident.lead_of_none hsource] at hlead
  | some source =>
    rw [Incident.lead_of_some hsource, ← List.append_assoc] at hlead
    obtain ⟨hfront, hbar⟩ := List.append_inj' hlead rfl
    obtain rfl : '|' = bar := by simpa using hbar
    rw [List.append_assoc, List.singleton_append] at hrest
    rcases cut_bar (bar_notMem_value _) hrest with ⟨rfl, hv⟩ | ⟨w, rfl, hv⟩
    · exact ⟨source, [], hsource, by rw [hfront, List.append_nil], congrArg _ hv⟩
    · exact ⟨source, '|' :: w, hsource, by rw [hfront]; simp, by rw [hv]; rfl⟩

theorem Misread.same_text {x y : Incident} (h : Misread x y) : x.text = y.text := by
  obtain ⟨source, more, hsource, hread, hvalue⟩ := h
  unfold Incident.text
  rw [Incident.lead_of_some hsource, hread, hvalue]
  simp

/-- The texts of two incidents with different keys are one where one source id is read as the
other's type. -/
theorem same_text_iff {x y : Incident} (hkey : x.key ≠ y.key) :
    signatureText x.parts = signatureText y.parts ↔ Misread x y ∨ Misread y x := by
  rw [← String.toList_inj, text_parts, text_parts, List.append_cancel_left_eq]
  constructor
  · intro h
    unfold Incident.text at h
    rw [List.append_assoc, List.append_assoc] at h
    rcases List.append_eq_append_iff.mp h with ⟨more, hlead, hrest⟩ | ⟨more, hlead, hrest⟩
    · exact .inl (lead_append hkey hlead hrest)
    · exact .inr (lead_append hkey.symm hlead hrest)
  · rintro (h | h)
    · exact h.same_text
    · exact h.same_text.symm

theorem text_some {s : String} (hs : s ≠ "") (key : EntityKey) : Incident.text ⟨some s, key⟩ =
    s.toList ++ '|' :: (key.1.value.toList ++ '|' :: key.2.toList) := by
  simp [Incident.text, Incident.lead, nonempty, Option.filter, hs]

theorem Typed.reads {text : List Char} (h : Typed text) (tail : List Char) :
    ∃ et : EntityType, ∃ w, text ++ '|' :: tail = et.value.toList ++ '|' :: w := by
  obtain ⟨et, rfl | ⟨rest, rfl⟩⟩ := h
  · exact ⟨et, tail, rfl⟩
  · exact ⟨et, rest ++ '|' :: tail, by simp⟩

end Texts

variable {hash : String → String} {sources : Set String} {x y : Incident}

theorem incident_ext {s : Option String} {et et' : EntityType} {v v' : String} (het : et = et')
    (hv : v.toList = v'.toList) : (⟨s, (et, v)⟩ : Incident) = ⟨s, (et', v')⟩ := by
  rw [het, String.toList_injective hv]

theorem text_inj (h : Separate sources) (hx : x.From sources) (hy : y.From sources)
    (htext : x.text = y.text) : x = y := by
  have hfull : ∀ s ∈ sources, s ≠ "" := fun s hs hnil => h.nonempty (hnil ▸ hs)
  obtain ⟨sx, etx, vx⟩ := x
  obtain ⟨sy, ety, vy⟩ := y
  cases sx with
  | none =>
    cases sy with
    | none =>
      obtain ⟨het, hv⟩ := value_inj htext
      exact incident_ext het hv
    | some s =>
      rw [text_some (hfull s (hy s rfl))] at htext
      exact absurd (typed_of_text htext) (h.untyped s (hy s rfl))
  | some s =>
    have hs := hx s rfl
    rw [text_some (hfull s hs)] at htext
    cases sy with
    | none => exact absurd (typed_of_text htext.symm) (h.untyped s hs)
    | some s' =>
      have hs' := hy s' rfl
      rw [text_some (hfull s' hs')] at htext
      rcases le_total s.toList.length s'.toList.length with hle | hle
      · rcases same_source htext hle with ⟨hsame, het, hv⟩ | ⟨rest, hrest, htyped⟩
        · rw [String.toList_injective hsame]
          exact incident_ext het hv
        · exact absurd htyped (h.apart s hs s' hs' rest hrest)
      · rcases same_source htext.symm hle with ⟨hsame, het, hv⟩ | ⟨rest, hrest, htyped⟩
        · rw [String.toList_injective hsame]
          exact incident_ext het.symm hv.symm
        · exact absurd htyped (h.apart s' hs' s hs rest hrest)

theorem collide (h : x.text = y.text) : hashed hash x.parts = hashed hash y.parts := by
  have hparts : signatureText x.parts = signatureText y.parts := by
    apply String.toList_injective
    rw [text_parts, text_parts, h]
  rw [hashed, hashed, hparts]

theorem separate_of_identify (h : Identify hash sources) : Separate sources := by
  have hnonempty : "" ∉ sources := by
    intro hmem
    have hfrom : Incident.From sources ⟨some "", (.ip, "v")⟩ := by
      rintro s hs
      exact Option.some.inj hs ▸ hmem
    have hsame := h.incidents ⟨some "", (.ip, "v")⟩ ⟨none, (.ip, "v")⟩ hfrom
      (by simp [Incident.From])
      (collide (by decide))
    cases hsame
  have hfull : ∀ s ∈ sources, s ≠ "" := fun s hs hnil => hnonempty (hnil ▸ hs)
  have hfrom : ∀ s ∈ sources, ∀ key, Incident.From sources ⟨some s, key⟩ :=
    fun s hs key s' hs' => Option.some.inj hs' ▸ hs
  refine ⟨hnonempty, fun s hs htyped => ?_, fun s hs s' hs' rest hrest htyped => ?_⟩
  · -- an incident of no source whose type the source id spells
    obtain ⟨et, w, hw⟩ := htyped.reads (EntityType.ip.value.toList ++ '|' :: "v".toList)
    have hsame := h.incidents ⟨none, (et, String.ofList w)⟩ ⟨some s, (.ip, "v")⟩
      (by simp [Incident.From]) (hfrom s hs _) (collide ?_)
    · cases hsame
    · rw [text_some (hfull s hs), hw]
      simp [Incident.text, Incident.lead, nonempty]
  · obtain ⟨et, w, hw⟩ := htyped.reads (EntityType.ip.value.toList ++ '|' :: "v".toList)
    have hsame := h.incidents ⟨some s, (et, String.ofList w)⟩ ⟨some s', (.ip, "v")⟩
      (hfrom s hs _) (hfrom s' hs' _) (collide ?_)
    · obtain ⟨rfl, -⟩ : s = s' ∧ _ := by simpa using hsame
      simpa using congrArg List.length hrest
    · rw [text_some (hfull s hs), text_some (hfull s' hs'), hrest]
      have hread : '|' :: rest ++ '|' :: (EntityType.ip.value.toList ++ '|' :: "v".toList) =
          '|' :: (et.value.toList ++ '|' :: w) := congrArg _ hw
      rw [List.append_assoc, hread, String.toList_ofList]

/-- **Signatures identify the incidents of some sources exactly where no source id is taken for an
entity type**, over any hash that is injective. -/
theorem identify_iff (hhash : Function.Injective hash) :
    Identify hash sources ↔ Separate sources := by
  refine ⟨separate_of_identify, fun h => ⟨fun x y hx hy hsame => ?_, fun x _ _ _ _ hsame => ?_,
    fun x _ _ hsame => ?_⟩⟩
  · have htext := congrArg String.toList (hhash hsame)
    rw [text_parts, text_parts] at htext
    exact text_inj h hx hy (List.append_cancel_left htext)
  · have htext := congrArg (fun text => text.toList.head?) (hhash hsame)
    simp only [text_parts] at htext
    simp [signatureText, crossSourceParts] at htext
  · have htext := congrArg (fun text => text.toList.head?) (hhash hsame)
    simp only [text_parts] at htext
    simp [signatureText, candidateParts] at htext

theorem identify_webhook : Identify id {"webhook"} := by
  refine (identify_iff Function.injective_id).mpr ⟨by simp, ?_, ?_⟩
  · rintro s rfl ⟨et, h | ⟨rest, h⟩⟩
    · cases et <;> exact absurd h (by decide)
    · have hbar : '|' ∈ "webhook".toList := by
        rw [h]
        simp
      exact absurd hbar (by decide)
  · rintro s rfl s' rfl rest h
    simpa using congrArg List.length h

theorem host_taken_for_user :
    clusterSignature (.host, "user|bob") (some "edge") =
      clusterSignature (.user, "bob") (some "edge|host") := by
  have htext : Incident.text ⟨some "edge", (.host, "user|bob")⟩ =
      Incident.text ⟨some "edge|host", (.user, "bob")⟩ := by
    rw [text_some (by simp), text_some (by simp)]
    rfl
  have hsame := @collide digest _ _ htext
  rw [clusterSignature, clusterSignature, stableSignature_eq]
  exact hsame

end AgenticKibana.Correlation
