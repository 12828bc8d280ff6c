import AgenticKibana.Correlation.Signatures
import AgenticKibana.Correlation.Order

/-!
# Cross-source groups are components

The groups that `cross_source_correlate` returns are the connected components, under shared
eligible slots and continued seeds, that an eligible slot lies in.  Each is named by a seed or a
slot of it, two components may carry one name, and the list of groups does not depend on the order
of the items and seeds.
-/

namespace AgenticKibana.Correlation

open AgenticKibana.Library List

variable {cfg : CrossSourceConfig} {items items' : List CrossSourceItem}
  {seeds seeds' : List ComponentSeed} {key : SlotKey} {id x y : String} {g : LinkGroup}

/-! ### What is linked -/

def exposing (cfg : CrossSourceConfig) (items : List CrossSourceItem) (key : SlotKey) :
    List CrossSourceItem :=
  items.filter fun item => key ∈ item.slots cfg

def Eligible (cfg : CrossSourceConfig) (items : List CrossSourceItem) (key : SlotKey) : Prop :=
  cfg.floor ≤ sourceCount (exposing cfg items key)

def seeded (items : List CrossSourceItem) (seed : ComponentSeed) : List CrossSourceItem :=
  items.filter fun item => item.id ∈ seed.members

def Continues (cfg : CrossSourceConfig) (items : List CrossSourceItem) (seed : ComponentSeed) :
    Prop :=
  cfg.floor ≤ sourceCount (seeded items seed)

def IdOf (items : List CrossSourceItem) (id : String) : Prop := ∃ item ∈ items, item.id = id

def Edge (cfg : CrossSourceConfig) (items : List CrossSourceItem) (seeds : List ComponentSeed)
    (x y : String) : Prop :=
  (∃ key, Eligible cfg items key ∧ IdOf (exposing cfg items key) x ∧
    IdOf (exposing cfg items key) y) ∨
  ∃ seed ∈ seeds, Continues cfg items seed ∧ IdOf (seeded items seed) x ∧
    IdOf (seeded items seed) y

abbrev Linked (cfg : CrossSourceConfig) (items : List CrossSourceItem)
    (seeds : List ComponentSeed) :
    String → String → Prop :=
  Relation.EqvGen (Edge cfg items seeds)

/-- A name that an id carries: the fresh id of an eligible slot it is in, or the well-formed id of a
seed that continues. -/
def Named (cfg : CrossSourceConfig) (items : List CrossSourceItem) (seeds : List ComponentSeed)
    (name x : String) : Prop :=
  (∃ key, Eligible cfg items key ∧ freshId cfg key = name ∧ IdOf (exposing cfg items key) x) ∨
  ∃ seed ∈ seeds, Continues cfg items seed ∧ validClusterId name = true ∧
    seed.crossSourceClusterId = name ∧ IdOf (seeded items seed) x

theorem dedup_length_congr {l l' : List String} (h : ∀ s, s ∈ l ↔ s ∈ l') :
    l.dedup.length = l'.dedup.length := by
  refine ((perm_ext_iff_of_nodup (nodup_dedup l) (nodup_dedup l')).mpr ?_).length_eq
  intro s
  rw [mem_dedup, mem_dedup]
  exact h s

theorem dedup_length_mono {l l' : List String} (h : ∀ s ∈ l, s ∈ l') :
    l.dedup.length ≤ l'.dedup.length := by
  refine (subperm_of_subset (nodup_dedup l) fun s hs => ?_).length_le
  exact mem_dedup.mpr (h s (mem_dedup.mp hs))

theorem sourceCount_congr {l l' : List CrossSourceItem} (h : ∀ item, item ∈ l ↔ item ∈ l') :
    sourceCount l = sourceCount l' := by
  refine dedup_length_congr fun s => ?_
  simp only [mem_map, h]

theorem two_le_floor (cfg : CrossSourceConfig) : 2 ≤ cfg.floor := Nat.le_max_left _ _

/-! ### The eligible groups -/

theorem mem_exposures {e : SlotKey × CrossSourceItem} :
    e ∈ exposures cfg items ↔ e.2 ∈ items ∧ e.1 ∈ e.2.slots cfg := by
  unfold exposures
  rw [mem_flatMap]
  constructor
  · rintro ⟨item, hitem, he⟩
    obtain ⟨key, hkey, rfl⟩ := mem_map.mp he
    exact ⟨hitem, hkey⟩
  · rintro ⟨hitem, hkey⟩
    exact ⟨e.2, hitem, mem_map.mpr ⟨e.1, hkey, rfl⟩⟩

def exposed (cfg : CrossSourceConfig) (items : List CrossSourceItem) (key : SlotKey) :
    List (SlotKey × CrossSourceItem) :=
  (exposures cfg items).filter fun e => (some e.1 : Option SlotKey) = some key

theorem mem_exposed {item : CrossSourceItem} :
    item ∈ (exposed cfg items key).map Prod.snd ↔ item ∈ exposing cfg items key := by
  unfold exposed exposing
  rw [mem_map, mem_filter, decide_eq_true_eq]
  constructor
  · rintro ⟨e, he, rfl⟩
    obtain ⟨hmem, hkey⟩ := mem_filter.mp he
    obtain rfl := Option.some.inj (of_decide_eq_true hkey)
    exact mem_exposures.mp hmem
  · rintro ⟨hitem, hkey⟩
    exact ⟨(key, item), mem_filter.mpr ⟨mem_exposures.mpr ⟨hitem, hkey⟩,
      decide_eq_true rfl⟩, rfl⟩

theorem mem_sortedSet {texts : List String} {text : String} :
    text ∈ sortedSet texts ↔ text ∈ texts := by
  unfold sortedSet
  rw [(mergeSort_perm _ _).mem_iff, mem_dedup]

theorem slotGroup_eq_some : slotGroup cfg key (exposed cfg items key) = some g →
    Eligible cfg items key ∧ g.crossSourceClusterId = freshId cfg key ∧
      ∀ x, x ∈ g.members ↔ IdOf (exposing cfg items key) x := by
  intro h
  unfold slotGroup at h
  split at h
  · cases h
  rename_i hfloor
  rw [sourceCount_congr fun _ => mem_exposed] at hfloor
  obtain rfl := Option.some.inj h
  refine ⟨not_lt.mp hfloor, rfl, fun x => ?_⟩
  rw [mem_sortedSet, mem_map]
  constructor
  · rintro ⟨e, he, rfl⟩
    exact ⟨e.2, mem_exposed.mp (mem_map_of_mem he), rfl⟩
  · rintro ⟨item, hitem, rfl⟩
    obtain ⟨e, he, rfl⟩ := mem_map.mp (mem_exposed.mpr hitem)
    exact ⟨e, he, rfl⟩

theorem slotGroup_isSome (h : Eligible cfg items key) :
    (slotGroup cfg key (exposed cfg items key)).isSome = true := by
  unfold slotGroup
  rw [sourceCount_congr fun _ => mem_exposed, if_neg (not_lt.mpr h)]
  rfl

def sortedSlots (cfg : CrossSourceConfig) (items : List CrossSourceItem) : List SlotKey :=
  (Dict.groupBy (fun e : SlotKey × CrossSourceItem => some e.1)
    (exposures cfg items)).keys.mergeSort
    fun a b => slotRank a ≤ slotRank b

theorem slotRank_injective : Function.Injective slotRank := by
  intro a b h
  obtain ⟨htype, hrest⟩ := Prod.mk.inj (toLex.injective h)
  obtain ⟨hvalue, hbucket⟩ := Prod.mk.inj (toLex.injective hrest)
  exact Prod.ext (EntityType.value_injective htype) (Prod.ext hvalue hbucket)

theorem eligibleGroups_eq : eligibleGroups cfg items =
    (sortedSlots cfg items).filterMap fun key => slotGroup cfg key (exposed cfg items key) := by
  unfold eligibleGroups sortedSlots
  dsimp only
  rw [← @map_fst_mergeSort SlotKey _ _ (fun a b => decide (slotRank a ≤ slotRank b)),
    filterMap_map]
  · refine filterMap_congr fun e he => ?_
    have hmem := (mergeSort_perm _ _).mem_iff.mp he
    rw [(Dict.mem_groupBy.mp hmem).1]
    rfl
  · exact rank_trans
  · exact rank_total
  · exact rank_antisymm slotRank_injective

/-- **The eligible groups** are those of the eligible slots. -/
theorem mem_eligibleGroups : g ∈ eligibleGroups cfg items ↔
    ∃ key, slotGroup cfg key (exposed cfg items key) = some g := by
  rw [eligibleGroups_eq, mem_filterMap]
  constructor
  · rintro ⟨key, -, h⟩
    exact ⟨key, h⟩
  · rintro ⟨key, h⟩
    refine ⟨key, (mergeSort_perm _ _).mem_iff.mpr (Dict.mem_keys_groupBy.mpr ?_), h⟩
    -- an eligible slot has an item
    obtain ⟨heligible, -⟩ := slotGroup_eq_some h
    have hpos : 0 < (exposing cfg items key).length := by
      refine Nat.pos_of_ne_zero fun hzero => ?_
      have hnil := length_eq_zero_iff.mp hzero
      have htwo := two_le_floor cfg
      unfold Eligible at heligible
      rw [hnil] at heligible
      have hcount : sourceCount [] = 0 := rfl
      omega
    obtain ⟨item, hitem⟩ := exists_mem_of_length_pos hpos
    obtain ⟨e, he, -⟩ := mem_map.mp (mem_exposed.mpr hitem)
    obtain ⟨hmem, hkey⟩ := mem_filter.mp he
    exact ⟨e, hmem, of_decide_eq_true hkey⟩

/-! ### Known ids and seeds -/

section Known

variable (hids : (items.map CrossSourceItem.id).Nodup)

include hids

theorem sourceById_entries :
    (sourceById items).entries = items.map fun item => (item.id, item.sourceId) := by
  refine Dict.entries_ofList ?_
  rw [map_map]
  exact hids

theorem knownIds_eq : knownIds items = items.map CrossSourceItem.id := by
  unfold knownIds Dict.keys
  rw [sourceById_entries hids, map_map]
  rfl

theorem mem_knownIds : x ∈ knownIds items ↔ IdOf items x := by
  rw [knownIds_eq hids, mem_map]
  rfl

theorem mem_knownMembers {members : List String} :
    x ∈ knownMembers items members ↔ x ∈ members ∧ IdOf items x := by
  unfold knownMembers
  rw [mem_sortedSet, mem_filter, contains_iff_mem, mem_knownIds hids]

theorem idSourceCount_eq (seed : ComponentSeed) :
    idSourceCount items (knownMembers items seed.members) = sourceCount (seeded items seed) := by
  refine dedup_length_congr fun s => ?_
  rw [mem_filterMap, mem_map]
  constructor
  · rintro ⟨id, hid, hs⟩
    have hentry := Dict.get?_eq_some_iff.mp hs
    rw [sourceById_entries hids, mem_map] at hentry
    obtain ⟨item, hitem, heq⟩ := hentry
    obtain ⟨rfl, rfl⟩ := Prod.mk.inj heq
    exact ⟨item, mem_filter.mpr ⟨hitem,
      decide_eq_true ((mem_knownMembers hids).mp hid).1⟩, rfl⟩
  · rintro ⟨item, hitem, rfl⟩
    obtain ⟨hmem, hnamed⟩ := mem_filter.mp hitem
    refine ⟨item.id, (mem_knownMembers hids).mpr ⟨of_decide_eq_true hnamed, item, hmem, rfl⟩, ?_⟩
    refine Dict.get?_eq_some_iff.mpr ?_
    rw [sourceById_entries hids]
    exact mem_map_of_mem hmem

/-- **The valid seeds** are those that continue. -/
theorem validSeed_eq_some {seed s : ComponentSeed} : validSeed cfg items seed = some s ↔
    Continues cfg items seed ∧ s =
      { crossSourceClusterId :=
          if validClusterId seed.crossSourceClusterId then seed.crossSourceClusterId else ""
        members := knownMembers items seed.members } := by
  have hle : idSourceCount items (knownMembers items seed.members) ≤
      (knownMembers items seed.members).length :=
    (dedup_sublist _).length_le.trans (length_filterMap_le _ _)
  have htwo := two_le_floor cfg
  rw [idSourceCount_eq hids] at hle
  unfold validSeed Continues
  dsimp only
  rw [idSourceCount_eq hids]
  constructor
  · intro h
    split at h
    · cases h
    split at h
    · cases h
    · rename_i hfloor
      exact ⟨not_lt.mp hfloor, (Option.some.inj h).symm⟩
  · rintro ⟨hfloor, rfl⟩
    rw [if_neg (by omega), if_neg (by omega)]

theorem mem_knownMembers_seed {seed : ComponentSeed} :
    x ∈ knownMembers items seed.members ↔ IdOf (seeded items seed) x := by
  rw [mem_knownMembers hids]
  constructor
  · rintro ⟨hx, item, hitem, rfl⟩
    exact ⟨item, mem_filter.mpr ⟨hitem, decide_eq_true hx⟩, rfl⟩
  · rintro ⟨item, hitem, rfl⟩
    obtain ⟨hmem, hnamed⟩ := mem_filter.mp hitem
    exact ⟨of_decide_eq_true hnamed, item, hmem, rfl⟩

theorem mem_knownMembers_group (h : slotGroup cfg key (exposed cfg items key) = some g) :
    x ∈ knownMembers items g.members ↔ IdOf (exposing cfg items key) x := by
  rw [mem_knownMembers hids, (slotGroup_eq_some h).2.2]
  constructor
  · exact And.left
  · rintro ⟨item, hitem, rfl⟩
    exact ⟨⟨item, hitem, rfl⟩, item, (mem_filter.mp hitem).1, rfl⟩

/-- **What is joined** is what is linked. -/
theorem together_iff : UnionFind.Together
      (joinedLists cfg items (eligibleGroups cfg items) seeds) x y ↔ Edge cfg items seeds x y := by
  unfold UnionFind.Together joinedLists Edge
  simp only [mem_append, mem_map]
  constructor
  · rintro ⟨l, ⟨g, hg, rfl⟩ | ⟨s, hs, rfl⟩, hx, hy⟩
    · obtain ⟨key, hkey⟩ := mem_eligibleGroups.mp hg
      exact .inl ⟨key, (slotGroup_eq_some hkey).1, (mem_knownMembers_group hids hkey).mp hx,
        (mem_knownMembers_group hids hkey).mp hy⟩
    · obtain ⟨seed, hseed, hvalid⟩ := mem_filterMap.mp hs
      obtain ⟨hcontinues, rfl⟩ := (validSeed_eq_some hids).mp hvalid
      exact .inr ⟨seed, hseed, hcontinues, (mem_knownMembers_seed hids).mp hx,
        (mem_knownMembers_seed hids).mp hy⟩
  · rintro (⟨key, heligible, hx, hy⟩ | ⟨seed, hseed, hcontinues, hx, hy⟩)
    · obtain ⟨g, hg⟩ := Option.isSome_iff_exists.mp (slotGroup_isSome heligible)
      exact ⟨_, .inl ⟨g, mem_eligibleGroups.mpr ⟨key, hg⟩, rfl⟩,
        (mem_knownMembers_group hids hg).mpr hx, (mem_knownMembers_group hids hg).mpr hy⟩
    · have hvalid := (@validSeed_eq_some cfg items hids seed _).mpr ⟨hcontinues, rfl⟩
      exact ⟨_, .inr ⟨_, mem_filterMap.mpr ⟨seed, hseed, hvalid⟩, rfl⟩,
        (mem_knownMembers_seed hids).mpr hx, (mem_knownMembers_seed hids).mpr hy⟩

theorem connected_iff : UnionFind.Connected
      (joinedLists cfg items (eligibleGroups cfg items) seeds) x y ↔
      Linked cfg items seeds x y := by
  have heq : UnionFind.Together (joinedLists cfg items (eligibleGroups cfg items) seeds) =
      Edge cfg items seeds := by
    funext a b
    exact propext (together_iff hids)
  unfold UnionFind.Connected Linked
  rw [heq]

theorem joinedLists_known : ∀ l ∈ joinedLists cfg items (eligibleGroups cfg items) seeds,
    ∀ x ∈ l, x ∈ knownIds items := by
  intro l hl x hx
  rcases mem_append.mp hl with hl | hl
  · obtain ⟨g, -, rfl⟩ := mem_map.mp hl
    exact (mem_knownIds hids).mpr ((mem_knownMembers hids).mp hx).2
  · obtain ⟨s, hs, rfl⟩ := mem_map.mp hl
    obtain ⟨seed, -, hvalid⟩ := mem_filterMap.mp hs
    obtain ⟨-, rfl⟩ := (validSeed_eq_some hids).mp hvalid
    exact (mem_knownIds hids).mpr ((mem_knownMembers hids).mp hx).2

theorem rootOf_eq_iff (hx : IdOf items x) (hy : IdOf items y) :
    rootOf cfg items (eligibleGroups cfg items) seeds x =
        rootOf cfg items (eligibleGroups cfg items) seeds y ↔ Linked cfg items seeds x y := by
  rw [← connected_iff hids]
  exact UnionFind.joined_iff_connected _ (joinedLists_known hids) ((mem_knownIds hids).mpr hx)
    ((mem_knownIds hids).mpr hy)

end Known

/-! ### The groups that are returned -/

variable {cfg : CrossSourceConfig} {items items' : List CrossSourceItem}
  {seeds seeds' : List ComponentSeed} {key : SlotKey} {id x y : String} {g h : LinkGroup}

def IsComponent (cfg : CrossSourceConfig) (items : List CrossSourceItem)
    (seeds : List ComponentSeed)
    (g : LinkGroup) : Prop :=
  ∃ x key, Eligible cfg items key ∧ IdOf (exposing cfg items key) x ∧
    ∀ y, y ∈ g.members ↔ IdOf items y ∧ Linked cfg items seeds x y

def groupItems (items : List CrossSourceItem) (g : LinkGroup) : List CrossSourceItem :=
  items.filter fun item => item.id ∈ g.members

def NamesApart (cfg : CrossSourceConfig) (items : List CrossSourceItem)
    (seeds : List ComponentSeed) : Prop :=
  ∀ name x y, Named cfg items seeds name x → Named cfg items seeds name y →
    Linked cfg items seeds x y

structure LinksComponents (cfg : CrossSourceConfig) (items : List CrossSourceItem)
    (seeds : List ComponentSeed) (groups : List LinkGroup) : Prop where
  disjoint : groups.Pairwise fun g h => ∀ x ∈ g.members, x ∉ h.members
  component : ∀ g ∈ groups, IsComponent cfg items seeds g
  complete : ∀ key x, Eligible cfg items key → IdOf (exposing cfg items key) x →
    ∃ g ∈ groups, x ∈ g.members
  sources : ∀ g ∈ groups, cfg.floor ≤ sourceCount (groupItems items g)
  named : ∀ g ∈ groups, ∃ x ∈ g.members, Named cfg items seeds g.crossSourceClusterId x
  distinct : NamesApart cfg items seeds →
    groups.Pairwise fun g h => g.crossSourceClusterId ≠ h.crossSourceClusterId

variable {rawGroups : List LinkGroup}

theorem canonicalGroup_mem (h : canonicalGroup rawGroups = some g) :
    g ∈ rawGroups := by
  have hfold : ∀ (groups : List LinkGroup) best,
      groups.foldl (fun best g => if groupRank g < groupRank best then g else best) best ∈
        best :: groups := by
    intro groups
    induction groups with
    | nil => exact fun best => mem_singleton_self best
    | cons group groups ih =>
      intro best
      rw [foldl_cons]
      split
      · exact mem_cons_of_mem _ (ih group)
      · rcases mem_cons.mp (ih best) with heq | hmem
        · rw [heq]
          exact mem_cons_self
        · exact mem_cons_of_mem _ (mem_cons_of_mem _ hmem)
  cases rawGroups with
  | nil => cases h
  | cons group groups =>
    rw [← Option.some.inj h]
    exact hfold groups group

theorem canonicalGroup_isSome (h : rawGroups ≠ []) :
    (canonicalGroup rawGroups).isSome = true := by
  cases rawGroups with
  | nil => exact absurd rfl h
  | cons group groups => rfl

variable {members seedIds : List String}

theorem collapseComponent_spec (h : collapseComponent members rawGroups seedIds = some g) :
    (∀ x, x ∈ g.members ↔ x ∈ members) ∧
      (g.crossSourceClusterId ∈ seedIds ∨
        ∃ raw ∈ rawGroups, g.crossSourceClusterId = raw.crossSourceClusterId) := by
  obtain ⟨canonical, hcanonical, rfl⟩ := Option.map_eq_some_iff.mp h
  refine ⟨fun x => (mergeSort_perm _ _).mem_iff, ?_⟩
  dsimp only
  cases hseed : seedIds.min? with
  | some id => exact .inl (min?_mem hseed)
  | none =>
    rw [Option.none_or]
    cases hraw : ((rawGroups.map LinkGroup.crossSourceClusterId).filter
      fun id => validClusterId id).min? with
    | some id =>
      obtain ⟨raw, hmem, heq⟩ := mem_map.mp (mem_filter.mp (min?_mem hraw)).1
      exact .inr ⟨raw, hmem, heq.symm⟩
    | none => exact .inr ⟨canonical, canonicalGroup_mem hcanonical, rfl⟩

theorem collapseComponent_perm {members' : List String} {seedIds' : List String}
    (hmembers : members.Perm members') (hseedIds : seedIds.Perm seedIds') :
    collapseComponent members rawGroups seedIds =
      collapseComponent members' rawGroups seedIds' := by
  unfold collapseComponent
  rw [mergeSort_le_congr hmembers, min?_congr hseedIds]

/-! ### The groups by their roots -/

section Roots

def rawRoot (cfg : CrossSourceConfig) (items : List CrossSourceItem) (seeds : List ComponentSeed)
    (group : LinkGroup) : Option String :=
  (knownMembers items group.members).head?.map (rootOf cfg items (eligibleGroups cfg items) seeds)

def seedRoot (cfg : CrossSourceConfig) (items : List CrossSourceItem) (seeds : List ComponentSeed)
    (seed : ComponentSeed) : Option String :=
  if seed.crossSourceClusterId = "" then none
  else seed.members.head?.map (rootOf cfg items (eligibleGroups cfg items) seeds)

def componentOf (cfg : CrossSourceConfig) (items : List CrossSourceItem)
    (seeds : List ComponentSeed)
    (root : String) : Option LinkGroup :=
  collapseComponent
    ((knownIds items).filter fun id =>
      some (rootOf cfg items (eligibleGroups cfg items) seeds id) = some root)
    ((eligibleGroups cfg items).filter fun group => rawRoot cfg items seeds group = some root)
    (((validSeeds cfg items seeds).filter fun seed => seedRoot cfg items seeds seed = some root).map
      ComponentSeed.crossSourceClusterId)

def components (cfg : CrossSourceConfig) (items : List CrossSourceItem)
    (seeds : List ComponentSeed) : List LinkGroup :=
  (Dict.groupBy (rawRoot cfg items seeds) (eligibleGroups cfg items)).keys.filterMap
    (componentOf cfg items seeds)

theorem collapseComponents_eq : collapseComponents cfg items (eligibleGroups cfg items) seeds =
    (components cfg items seeds).mergeSort fun a b =>
      toLex (a.crossSourceClusterId, a.members) ≤ toLex (b.crossSourceClusterId, b.members) := by
  unfold collapseComponents
  dsimp only
  refine congrArg (fun l : List LinkGroup => l.mergeSort _) ?_
  unfold components Dict.keys
  rw [filterMap_map]
  refine filterMap_congr fun e he => ?_
  rw [Dict.getD_groupBy, Dict.getD_groupBy, (Dict.mem_groupBy.mp he).1]
  rfl

theorem mem_components : g ∈ components cfg items seeds ↔
    ∃ root, componentOf cfg items seeds root = some g := by
  unfold components
  rw [mem_filterMap]
  constructor
  · rintro ⟨root, -, hroot⟩
    exact ⟨root, hroot⟩
  · rintro ⟨root, hroot⟩
    refine ⟨root, Dict.mem_keys_groupBy.mpr ?_, hroot⟩
    obtain ⟨canonical, hcanonical, -⟩ := Option.map_eq_some_iff.mp hroot
    obtain ⟨hmem, hkey⟩ := mem_filter.mp (canonicalGroup_mem hcanonical)
    exact ⟨canonical, hmem, of_decide_eq_true hkey⟩

variable (hids : (items.map CrossSourceItem.id).Nodup)

include hids

theorem rawRoot_eq (hg : slotGroup cfg key (exposed cfg items key) = some g)
    (hx : IdOf (exposing cfg items key) x) :
    rawRoot cfg items seeds g =
      some (rootOf cfg items (eligibleGroups cfg items) seeds x) := by
  have hknown : ∀ {z}, IdOf (exposing cfg items key) z → IdOf items z := by
    rintro z ⟨item, hitem, rfl⟩
    exact ⟨item, (mem_filter.mp hitem).1, rfl⟩
  have hmem := (mem_knownMembers_group hids hg).mpr hx
  unfold rawRoot
  cases hmembers : knownMembers items g.members with
  | nil =>
    rw [hmembers] at hmem
    cases hmem
  | cons head tail =>
    have hhead := (mem_knownMembers_group hids hg).mp (hmembers ▸ mem_cons_self)
    refine congrArg some ((rootOf_eq_iff hids (hknown hhead) (hknown hx)).mpr ?_)
    exact .rel _ _ (.inl ⟨key, (slotGroup_eq_some hg).1, hhead, hx⟩)

variable {root : String}

theorem seedRoot_eq {seed s : ComponentSeed} (hvalid : validSeed cfg items seed = some s)
    (hroot : seedRoot cfg items seeds s = some root) :
    validClusterId s.crossSourceClusterId = true ∧
      seed.crossSourceClusterId = s.crossSourceClusterId ∧
      ∃ z, IdOf (seeded items seed) z ∧
        rootOf cfg items (eligibleGroups cfg items) seeds z = root := by
  obtain ⟨-, rfl⟩ := (validSeed_eq_some hids).mp hvalid
  unfold seedRoot at hroot
  dsimp only at hroot ⊢
  by_cases hform : validClusterId seed.crossSourceClusterId = true
  · rw [if_pos hform] at hroot ⊢
    by_cases hempty : seed.crossSourceClusterId = ""
    · rw [if_pos hempty] at hroot
      cases hroot
    · rw [if_neg hempty] at hroot
      obtain ⟨z, hz, hzroot⟩ := Option.map_eq_some_iff.mp hroot
      exact ⟨hform, rfl, z, (mem_knownMembers_seed hids).mp (mem_of_mem_head? hz), hzroot⟩
  · rw [if_neg hform, if_pos rfl] at hroot
    cases hroot

/-- **What a component is**: the known ids with its root, one of them in an eligible slot; and it
bears the name of a slot or a seed in it. -/
theorem componentOf_spec (hroot : componentOf cfg items seeds root = some g) :
    (∀ y, y ∈ g.members ↔ IdOf items y ∧
      rootOf cfg items (eligibleGroups cfg items) seeds y = root) ∧
    (∃ key x, Eligible cfg items key ∧ IdOf (exposing cfg items key) x ∧ IdOf items x ∧
      ∀ y, IdOf (exposing cfg items key) y → y ∈ g.members) ∧
    ∃ x ∈ g.members, Named cfg items seeds g.crossSourceClusterId x := by
  have hknown : ∀ {key z}, IdOf (exposing cfg items key) z → IdOf items z := by
    rintro key z ⟨item, hitem, rfl⟩
    exact ⟨item, (mem_filter.mp hitem).1, rfl⟩
  obtain ⟨hmembers, hname⟩ := collapseComponent_spec hroot
  have hmem : ∀ y, y ∈ g.members ↔ IdOf items y ∧
      rootOf cfg items (eligibleGroups cfg items) seeds y = root := by
    intro y
    rw [hmembers y, mem_filter, mem_knownIds hids, decide_eq_true_eq, Option.some.injEq]
  -- a raw group of the component, and its slot
  have hraw : ∀ raw, raw ∈ (eligibleGroups cfg items).filter (fun group =>
      rawRoot cfg items seeds group = some root) → ∃ key x, Eligible cfg items key ∧
        raw.crossSourceClusterId = freshId cfg key ∧ IdOf (exposing cfg items key) x ∧
        ∀ y, IdOf (exposing cfg items key) y → y ∈ g.members := by
    intro raw hmem'
    obtain ⟨hraw, hkey⟩ := mem_filter.mp hmem'
    obtain ⟨key, hgroup⟩ := mem_eligibleGroups.mp hraw
    obtain ⟨heligible, hid, -⟩ := slotGroup_eq_some hgroup
    have hrawRoot := of_decide_eq_true hkey
    obtain ⟨x, hx, -⟩ := Option.map_eq_some_iff.mp hrawRoot
    have hx' := (mem_knownMembers_group hids hgroup).mp (mem_of_mem_head? hx)
    refine ⟨key, x, heligible, hid, hx', fun y hy => (hmem y).mpr ⟨hknown hy, ?_⟩⟩
    rw [rawRoot_eq hids hgroup hy] at hrawRoot
    exact Option.some.inj hrawRoot
  refine ⟨hmem, ?_, ?_⟩
  · obtain ⟨canonical, hcanonical, -⟩ := Option.map_eq_some_iff.mp hroot
    obtain ⟨key, x, heligible, -, hx, hall⟩ := hraw canonical (canonicalGroup_mem hcanonical)
    exact ⟨key, x, heligible, hx, hknown hx, hall⟩
  · rcases hname with hseed | ⟨raw, hmem', hid⟩
    · obtain ⟨s, hs, hid⟩ := mem_map.mp hseed
      obtain ⟨hvalid, hkey⟩ := mem_filter.mp hs
      obtain ⟨seed, hseed', hvalid⟩ := mem_filterMap.mp hvalid
      obtain ⟨hform, hsame, z, hz, hzroot⟩ := seedRoot_eq hids hvalid (of_decide_eq_true hkey)
      have hzknown : IdOf items z := by
        obtain ⟨item, hitem, rfl⟩ := hz
        exact ⟨item, (mem_filter.mp hitem).1, rfl⟩
      refine ⟨z, (hmem z).mpr ⟨hzknown, hzroot⟩, .inr ⟨seed, hseed', ?_, ?_, ?_, hz⟩⟩
      · exact ((validSeed_eq_some hids).mp hvalid).1
      · rw [← hid]
        exact hform
      · rw [← hid]
        exact hsame
    · obtain ⟨key, x, heligible, hfresh, hx, hall⟩ := hraw raw hmem'
      exact ⟨x, hall x hx, .inl ⟨key, heligible, hfresh.symm.trans hid.symm, hx⟩⟩

theorem components_disjoint :
    (components cfg items seeds).Pairwise fun g h => ∀ x ∈ g.members, x ∉ h.members := by
  unfold components
  refine List.Pairwise.filterMap _ ?_ (Dict.nodup _)
  intro r r' hne g hg h hh x hxg hxh
  have hg := ((componentOf_spec hids hg).1 x).mp hxg
  have hh := ((componentOf_spec hids hh).1 x).mp hxh
  exact hne (hg.2.symm.trans hh.2)

theorem exists_component (heligible : Eligible cfg items key)
    (hx : IdOf (exposing cfg items key) x) :
    ∃ g ∈ components cfg items seeds, x ∈ g.members := by
  obtain ⟨raw, hraw⟩ := Option.isSome_iff_exists.mp (slotGroup_isSome heligible)
  have hroot := @rawRoot_eq cfg items seeds key x raw hids hraw hx
  have hmem : raw ∈ (eligibleGroups cfg items).filter fun group =>
      rawRoot cfg items seeds group =
        some (rootOf cfg items (eligibleGroups cfg items) seeds x) :=
    mem_filter.mpr ⟨mem_eligibleGroups.mpr ⟨key, hraw⟩, decide_eq_true hroot⟩
  obtain ⟨canonical, hcanonical⟩ := Option.isSome_iff_exists.mp
    (canonicalGroup_isSome (ne_nil_of_mem hmem))
  have hsome : (componentOf cfg items seeds
      (rootOf cfg items (eligibleGroups cfg items) seeds x)).isSome = true := by
    unfold componentOf collapseComponent
    rw [Option.isSome_map, hcanonical]
    rfl
  obtain ⟨g, hg⟩ := Option.isSome_iff_exists.mp hsome
  obtain ⟨item, hitem, hid⟩ := hx
  exact ⟨g, mem_components.mpr ⟨_, hg⟩, ((componentOf_spec hids hg).1 x).mpr
    ⟨⟨item, (mem_filter.mp hitem).1, hid⟩, rfl⟩⟩

/-- **The groups are the components.** -/
theorem components_link : LinksComponents cfg items seeds
    (collapseComponents cfg items (eligibleGroups cfg items) seeds) := by
  rw [collapseComponents_eq]
  have hperm := mergeSort_perm (components cfg items seeds) fun a b =>
    toLex (a.crossSourceClusterId, a.members) ≤ toLex (b.crossSourceClusterId, b.members)
  generalize (components cfg items seeds).mergeSort _ = groups at hperm ⊢
  have hspec : ∀ g ∈ groups, ∃ root, componentOf cfg items seeds root = some g :=
    fun _ hg => mem_components.mp (hperm.mem_iff.mp hg)
  have hdisjoint := (hperm.pairwise_iff
    (R := fun g h : LinkGroup => ∀ x ∈ g.members, x ∉ h.members)
    fun {g h} hgh x hxh hxg => hgh x hxg hxh).mpr (components_disjoint hids)
  have hcomponent : ∀ g ∈ groups, IsComponent cfg items seeds g := by
    intro g hg
    obtain ⟨root, hroot⟩ := hspec g hg
    obtain ⟨hmem, ⟨key, x, heligible, hx, hknown, hall⟩, -⟩ := componentOf_spec hids hroot
    refine ⟨x, key, heligible, hx, fun y => ?_⟩
    have hxroot := ((hmem x).mp (hall x hx)).2
    rw [hmem y, ← hxroot]
    exact and_congr_right fun hy => eq_comm.trans (rootOf_eq_iff hids hknown hy)
  refine ⟨hdisjoint, hcomponent, fun key x heligible hx => ?_, fun g hg => ?_, fun g hg => ?_, ?_⟩
  · obtain ⟨g, hg, hxg⟩ := exists_component hids heligible hx
    exact ⟨g, hperm.mem_iff.mpr hg, hxg⟩
  · obtain ⟨root, hroot⟩ := hspec g hg
    obtain ⟨-, ⟨key, x, heligible, -, -, hall⟩, -⟩ := componentOf_spec hids hroot
    refine heligible.trans (dedup_length_mono fun s hs => ?_)
    obtain ⟨item, hitem, rfl⟩ := mem_map.mp hs
    refine mem_map_of_mem (mem_filter.mpr ⟨(mem_filter.mp hitem).1, ?_⟩)
    exact decide_eq_true (hall item.id ⟨item, hitem, rfl⟩)
  · obtain ⟨root, hroot⟩ := hspec g hg
    exact (componentOf_spec hids hroot).2.2
  · intro hnames
    refine hdisjoint.imp_of_mem fun {g h} hg hh hgh heq => ?_
    obtain ⟨rootg, hrootg⟩ := hspec g hg
    obtain ⟨rooth, hrooth⟩ := hspec h hh
    obtain ⟨hmemg, -, x, hx, hnamex⟩ := componentOf_spec hids hrootg
    obtain ⟨hmemh, -, y, hy, hnamey⟩ := componentOf_spec hids hrooth
    -- the two carriers of the name are linked, and so of one root
    have hlinked := hnames _ x y hnamex (heq ▸ hnamey)
    have hroots := (rootOf_eq_iff hids ((hmemg x).mp hx).1 ((hmemh y).mp hy).1).mpr hlinked
    rw [((hmemg x).mp hx).2, ((hmemh y).mp hy).2] at hroots
    exact hgh x hx ((hmemh x).mpr ⟨((hmemg x).mp hx).1, ((hmemg x).mp hx).2.trans hroots⟩)

end Roots

/-! ### The order of the items and seeds -/

section Permuted

variable (hitems : items.Perm items') (hseeds : seeds.Perm seeds')

include hitems

theorem slotGroup_perm (key : SlotKey) : slotGroup cfg key (exposed cfg items key) =
    slotGroup cfg key (exposed cfg items' key) := by
  have hexposed : (exposed cfg items key).Perm (exposed cfg items' key) :=
    (hitems.flatMap_right _).filter _
  have hcount : sourceCount ((exposed cfg items key).map Prod.snd) =
      sourceCount ((exposed cfg items' key).map Prod.snd) :=
    sourceCount_congr fun _ => (hexposed.map Prod.snd).mem_iff
  unfold slotGroup
  rw [hcount, sortedSet_perm (hexposed.map _)]

theorem eligibleGroups_perm : eligibleGroups cfg items = eligibleGroups cfg items' := by
  have hslots : sortedSlots cfg items = sortedSlots cfg items' := by
    refine mergeSort_congr rank_trans rank_total (rank_antisymm slotRank_injective)
      ((perm_ext_iff_of_nodup (Dict.nodup _) (Dict.nodup _)).mpr fun key => ?_)
    refine Dict.mem_keys_groupBy.trans (Iff.trans ?_ Dict.mem_keys_groupBy.symm)
    have hexposures : (exposures cfg items).Perm (exposures cfg items') := hitems.flatMap_right _
    simp only [hexposures.mem_iff]
  rw [eligibleGroups_eq, eligibleGroups_eq, hslots]
  exact filterMap_congr fun key _ => slotGroup_perm hitems key

theorem idOf_perm {p : CrossSourceItem → Bool} :
    IdOf (items.filter p) x ↔ IdOf (items'.filter p) x := by
  unfold IdOf
  simp only [mem_filter, hitems.mem_iff]

theorem sourceCount_perm (p : CrossSourceItem → Bool) :
    sourceCount (items.filter p) = sourceCount (items'.filter p) :=
  sourceCount_congr fun _ => (hitems.filter p).mem_iff

include hseeds in
theorem linked_perm : Linked cfg items seeds x y ↔ Linked cfg items' seeds' x y := by
  have hedge : Edge cfg items seeds = Edge cfg items' seeds' := by
    funext a b
    unfold Edge Eligible Continues exposing seeded
    simp only [idOf_perm hitems, sourceCount_perm hitems, hseeds.mem_iff]
  unfold Linked
  rw [hedge]

variable (hids : (items.map CrossSourceItem.id).Nodup)

include hids

theorem knownIds_perm : (knownIds items).Perm (knownIds items') := by
  rw [knownIds_eq hids, knownIds_eq ((hitems.map _).nodup_iff.mp hids)]
  exact hitems.map _

theorem knownMembers_perm (members : List String) :
    knownMembers items members = knownMembers items' members := by
  unfold knownMembers
  refine congrArg sortedSet (filter_congr fun id _ => ?_)
  rw [Bool.eq_iff_iff, contains_iff_mem, contains_iff_mem]
  exact (knownIds_perm hitems hids).mem_iff

theorem validSeed_perm (seed : ComponentSeed) :
    validSeed cfg items seed = validSeed cfg items' seed := by
  refine Option.ext fun s => ?_
  rw [validSeed_eq_some hids, validSeed_eq_some ((hitems.map _).nodup_iff.mp hids),
    knownMembers_perm hitems hids]
  unfold Continues seeded
  rw [sourceCount_perm hitems]

include hseeds

theorem rootOf_perm (hx : x ∈ knownIds items) :
    rootOf cfg items (eligibleGroups cfg items) seeds x =
      rootOf cfg items' (eligibleGroups cfg items') seeds' x := by
  have hids' := (hitems.map CrossSourceItem.id).nodup_iff.mp hids
  refine UnionFind.root_eq_of_connected (joinedLists_known hids) (joinedLists_known hids')
    (fun z => (knownIds_perm hitems hids).mem_iff) (fun z w => ?_) hx
  rw [connected_iff hids, connected_iff hids']
  exact linked_perm hitems hseeds

theorem rawRoot_perm : rawRoot cfg items seeds = rawRoot cfg items' seeds' := by
  funext group
  unfold rawRoot
  rw [← knownMembers_perm hitems hids]
  refine Option.map_congr fun id hid => ?_
  have hmem := (mem_knownMembers hids).mp (mem_of_mem_head? hid)
  exact rootOf_perm hitems hseeds hids ((mem_knownIds hids).mpr hmem.2)

theorem seedRoot_perm {s : ComponentSeed} (hs : s ∈ validSeeds cfg items seeds) :
    seedRoot cfg items seeds s = seedRoot cfg items' seeds' s := by
  obtain ⟨seed, -, hvalid⟩ := mem_filterMap.mp hs
  obtain ⟨-, rfl⟩ := (validSeed_eq_some hids).mp hvalid
  unfold seedRoot
  refine if_congr Iff.rfl rfl (Option.map_congr fun id hid => ?_)
  have hmem := (mem_knownMembers hids).mp (mem_of_mem_head? hid)
  exact rootOf_perm hitems hseeds hids ((mem_knownIds hids).mpr hmem.2)

theorem componentOf_perm : componentOf cfg items seeds = componentOf cfg items' seeds' := by
  funext root
  unfold componentOf
  rw [← eligibleGroups_perm hitems, ← rawRoot_perm hitems hseeds hids]
  refine collapseComponent_perm ?_ (List.Perm.map _ ?_)
  · refine List.Perm.trans (List.Perm.of_eq (filter_congr fun id hid => ?_))
      ((knownIds_perm hitems hids).filter _)
    rw [rootOf_perm hitems hseeds hids hid, ← eligibleGroups_perm hitems]
  · have hvalid : (validSeeds cfg items seeds).Perm (validSeeds cfg items' seeds') := by
      have hsame : validSeed cfg items = validSeed cfg items' :=
        funext fun seed => validSeed_perm hitems hids seed
      unfold validSeeds
      rw [hsame]
      exact hseeds.filterMap _
    refine List.Perm.trans (List.Perm.of_eq (filter_congr fun s hs => ?_)) (hvalid.filter _)
    rw [seedRoot_perm hitems hseeds hids hs]

theorem crossSourceCorrelate_perm :
    crossSourceCorrelate cfg items seeds = crossSourceCorrelate cfg items' seeds' := by
  have hnil : items = [] ↔ items' = [] := by
    rw [← length_eq_zero_iff, ← length_eq_zero_iff, hitems.length_eq]
  unfold crossSourceCorrelate
  refine if_congr (or_congr_right hnil) rfl ?_
  rw [collapseComponents_eq, collapseComponents_eq]
  unfold components
  rw [rawRoot_perm hitems hseeds hids, eligibleGroups_perm hitems,
    componentOf_perm hitems hseeds hids]

end Permuted

/-- **Cross-source linking computes the components** of ids under shared eligible slots and
continued seeds, each over enough sources; it names them apart wherever no name is carried in two
components, in any order of the items and seeds. -/
theorem crossSourceCorrelate_links (cfg : CrossSourceConfig) (items : List CrossSourceItem)
    (seeds : List ComponentSeed) (henabled : cfg.enabled = true)
    (hids : (items.map CrossSourceItem.id).Nodup) :
    LinksComponents cfg items seeds (crossSourceCorrelate cfg items seeds) ∧
    ∀ items' seeds', items.Perm items' → seeds.Perm seeds' →
      crossSourceCorrelate cfg items seeds = crossSourceCorrelate cfg items' seeds' := by
  refine ⟨?_, fun items' seeds' hitems hseeds => crossSourceCorrelate_perm hitems hseeds hids⟩
  unfold crossSourceCorrelate
  by_cases hnil : items = []
  · subst hnil
    rw [if_pos (.inr rfl)]
    have hnone : ∀ key x, ¬ IdOf (exposing cfg [] key) x := by
      rintro key x ⟨item, hitem, -⟩
      cases hitem
    exact ⟨.nil, fun g hg => (not_mem_nil hg).elim,
      fun key x _ hx => (hnone key x hx).elim, fun g hg => (not_mem_nil hg).elim,
      fun g hg => (not_mem_nil hg).elim, fun _ => .nil⟩
  · rw [if_neg (by simp [henabled, hnil])]
    exact components_link hids

def sampleItems : List CrossSourceItem :=
  [⟨"a", "siem", 0, [(.ip, "10.0.0.1")]⟩, ⟨"b", "edr", 0, [(.ip, "10.0.0.1")]⟩,
    ⟨"c", "siem", 0, [(.ip, "10.0.0.2")]⟩, ⟨"d", "edr", 0, [(.ip, "10.0.0.2")]⟩]

def persistedId : String := "00000000000000000000000000000000"

def sampleSeeds : List ComponentSeed := [⟨persistedId, ["a", "b"]⟩, ⟨persistedId, ["c", "d"]⟩]

theorem sample_nodup : (sampleItems.map CrossSourceItem.id).Nodup := by decide

/-- The groups of the four cases, without seeds. -/
theorem crossSourceCorrelate_links_sample :
    LinksComponents {} sampleItems [] (crossSourceCorrelate {} sampleItems []) ∧
    ∀ items' seeds', sampleItems.Perm items' → [].Perm seeds' →
      crossSourceCorrelate {} sampleItems [] = crossSourceCorrelate {} items' seeds' :=
  crossSourceCorrelate_links {} sampleItems [] rfl sample_nodup

theorem sample_address (h : Linked {} sampleItems sampleSeeds x y) :
    ["a", "b"].contains x = ["a", "b"].contains y := by
  have hslots : ∀ item ∈ sampleItems, ∀ key ∈ item.slots {},
      ["a", "b"].contains item.id = (key.2.1 == "10.0.0.1") := by
    decide
  have hseeds : ∀ seed ∈ sampleSeeds, ∀ x ∈ seed.members, ∀ y ∈ seed.members,
      ["a", "b"].contains x = ["a", "b"].contains y := by
    decide
  induction h with
  | refl x => rfl
  | symm x y _ ih => exact ih.symm
  | trans x y z _ _ ihxy ihyz => exact ihxy.trans ihyz
  | rel x y h =>
    rcases h with ⟨key, -, ⟨item, hitem, rfl⟩, ⟨item', hitem', rfl⟩⟩ |
      ⟨seed, hseed, -, ⟨item, hitem, rfl⟩, ⟨item', hitem', rfl⟩⟩
    · obtain ⟨hmem, hkey⟩ := mem_filter.mp hitem
      obtain ⟨hmem', hkey'⟩ := mem_filter.mp hitem'
      rw [hslots item hmem key (of_decide_eq_true hkey),
        hslots item' hmem' key (of_decide_eq_true hkey')]
    · exact hseeds seed hseed item.id (of_decide_eq_true (mem_filter.mp hitem).2)
        item'.id (of_decide_eq_true (mem_filter.mp hitem').2)

theorem seeded_component_id (hids : (items.map CrossSourceItem.id).Nodup) {name : String}
    (hname : validClusterId name = true ∧ name ≠ "")
    (hall : ∀ seed ∈ seeds, seed.crossSourceClusterId = name) {seed : ComponentSeed}
    (hseed : seed ∈ seeds) (hcontinues : Continues cfg items seed)
    (hx : IdOf (seeded items seed) x) {root : String}
    (hroot : componentOf cfg items seeds root = some g) (hxg : x ∈ g.members) :
    g.crossSourceClusterId = name := by
  have hvalid : ∀ s ∈ validSeeds cfg items seeds, s.crossSourceClusterId = name := by
    intro s hs
    obtain ⟨seed, hseed, hvalid⟩ := mem_filterMap.mp hs
    obtain ⟨-, rfl⟩ := (validSeed_eq_some hids).mp hvalid
    dsimp only
    rw [hall seed hseed, if_pos hname.1]
  -- the seed is collected under the root of the component
  obtain ⟨s, hs⟩ : ∃ s, validSeed cfg items seed = some s :=
    ⟨_, (validSeed_eq_some hids).mpr ⟨hcontinues, rfl⟩⟩
  have hsmem : s ∈ validSeeds cfg items seeds := mem_filterMap.mpr ⟨seed, hseed, hs⟩
  have hsroot : seedRoot cfg items seeds s = some root := by
    obtain ⟨-, rfl⟩ := (validSeed_eq_some hids).mp hs
    have hid := hvalid _ hsmem
    have hxknown := ((componentOf_spec hids hroot).1 x).mp hxg
    have hmem := (mem_knownMembers_seed hids).mpr hx
    unfold seedRoot
    rw [hid, if_neg hname.2]
    dsimp only
    cases hmembers : knownMembers items seed.members with
    | nil =>
      rw [hmembers] at hmem
      cases hmem
    | cons head tail =>
      have hhead := (mem_knownMembers_seed hids).mp (hmembers ▸ mem_cons_self)
      obtain ⟨item, hitem, hitemId⟩ := hhead
      have hheadKnown : IdOf items head := ⟨item, (mem_filter.mp hitem).1, hitemId⟩
      refine congrArg some (Eq.trans ?_ hxknown.2)
      refine (rootOf_eq_iff hids hheadKnown hxknown.1).mpr (.rel _ _ (.inr ?_))
      exact ⟨seed, hseed, hcontinues, ⟨item, hitem, hitemId⟩, hx⟩
  have hseedId : s.crossSourceClusterId ∈ ((validSeeds cfg items seeds).filter fun seed =>
      seedRoot cfg items seeds seed = some root).map ComponentSeed.crossSourceClusterId :=
    mem_map_of_mem (mem_filter.mpr ⟨hsmem, decide_eq_true hsroot⟩)
  obtain ⟨least, hleast⟩ := Option.isSome_iff_exists.mp (isSome_min?_of_mem hseedId)
  obtain ⟨s', hs', heq⟩ := mem_map.mp (min?_mem hleast)
  obtain ⟨canonical, -, rfl⟩ := Option.map_eq_some_iff.mp hroot
  dsimp only
  rw [hleast, Option.some_or, Option.getD_some, ← heq]
  exact hvalid s' (mem_filter.mp hs').1

/-- The two components of the sample keep the id that both were persisted with. -/
theorem one_name_twice : ¬ ∀ cfg items seeds, cfg.enabled = true →
    (items.map CrossSourceItem.id).Nodup →
    (crossSourceCorrelate cfg items seeds).Pairwise fun g h =>
      g.crossSourceClusterId ≠ h.crossSourceClusterId := by
  intro hall
  have hpairwise := hall {} sampleItems sampleSeeds rfl sample_nodup
  have hgroups : crossSourceCorrelate {} sampleItems sampleSeeds =
      collapseComponents {} sampleItems (eligibleGroups {} sampleItems) sampleSeeds := by
    unfold crossSourceCorrelate
    rw [if_neg (by simp [sampleItems])]
  have hnamed : ∀ (key : SlotKey) (seed : ComponentSeed) (x : String), seed ∈ sampleSeeds →
      Eligible {} sampleItems key → IdOf (exposing {} sampleItems key) x →
      Continues {} sampleItems seed → IdOf (seeded sampleItems seed) x →
      ∃ g ∈ crossSourceCorrelate {} sampleItems sampleSeeds, x ∈ g.members ∧
        g.crossSourceClusterId = persistedId ∧
        ∀ y ∈ g.members, ["a", "b"].contains x = ["a", "b"].contains y := by
    intro key seed x hseed heligible hx hcontinues hxseed
    obtain ⟨g, hg, hxg⟩ := exists_component sample_nodup heligible hx
    obtain ⟨root, hroot⟩ := mem_components.mp hg
    have hmem := (componentOf_spec sample_nodup hroot).1
    refine ⟨g, ?_, hxg, ?_, fun y hy => ?_⟩
    · rw [hgroups, collapseComponents_eq]
      exact (mergeSort_perm _ _).mem_iff.mpr hg
    · exact seeded_component_id sample_nodup ⟨by decide, by decide⟩
        (by decide) hseed hcontinues hxseed hroot hxg
    · have hxroot := (hmem x).mp hxg
      have hyroot := (hmem y).mp hy
      exact sample_address ((rootOf_eq_iff sample_nodup hxroot.1 hyroot.1).mp
        (hxroot.2.trans hyroot.2.symm))
  obtain ⟨g, hg, hag, hgid, hgaddress⟩ := hnamed (.ip, "10.0.0.1", 0) ⟨persistedId, ["a", "b"]⟩ "a"
    (by simp [sampleSeeds]) (by unfold Eligible; decide)
    ⟨⟨"a", "siem", 0, [(.ip, "10.0.0.1")]⟩, by decide, rfl⟩
    (by unfold Continues; decide)
    ⟨⟨"a", "siem", 0, [(.ip, "10.0.0.1")]⟩, by decide, rfl⟩
  obtain ⟨h, hh, hch, hhid, -⟩ := hnamed (.ip, "10.0.0.2", 0) ⟨persistedId, ["c", "d"]⟩ "c"
    (by simp [sampleSeeds]) (by unfold Eligible; decide)
    ⟨⟨"c", "siem", 0, [(.ip, "10.0.0.2")]⟩, by decide, rfl⟩
    (by unfold Continues; decide)
    ⟨⟨"c", "siem", 0, [(.ip, "10.0.0.2")]⟩, by decide, rfl⟩
  have hne : g ≠ h := by
    rintro rfl
    exact absurd (hgaddress "c" hch) (by decide)
  have hsymm : Std.Symm fun g h : LinkGroup => g.crossSourceClusterId ≠ h.crossSourceClusterId :=
    ⟨fun _ _ hgh => hgh.symm⟩
  exact hpairwise.forall hg hh hne (hgid.trans hhid.symm)

end AgenticKibana.Correlation
