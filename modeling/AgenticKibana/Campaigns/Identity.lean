import AgenticKibana.Correlation.Signatures
import AgenticKibana.Correlation.Order
import AgenticKibana.Library.TextLines

/-!
# Campaigns and the groups they stand for

`build_campaigns` joins the cases that share an entity within a time bucket, and makes a campaign
of each set of at least two of them and at most `_MAX_CAMPAIGN_CASES`.  Their ids are hashes of
signatures, which several groups may have in common, and the times that they show are texts of
instants, which may be written in several ways; where neither happens the campaigns have distinct
ids and do not depend on the order of the cases.
-/

namespace AgenticKibana.Campaigns

open AgenticKibana.Library List

structure DisjointSet where
  parent : String → String := id
  size : String → Nat := fun _ => 1

variable (nodes : List String)

def DisjointSet.union (ds : DisjointSet) (a b : String) : DisjointSet :=
  let fa := UnionFind.find nodes ds.parent a
  let fb := UnionFind.find nodes fa.2 b
  if fa.1 = fb.1 then { ds with parent := fb.2 }
  else
    let r := if ds.size fa.1 < ds.size fb.1 then (fb.1, fa.1) else (fa.1, fb.1)
    { parent := Function.update fb.2 r.2 r.1
      size := Function.update ds.size r.1 (ds.size r.1 + ds.size r.2) }

def DisjointSet.join (ds : DisjointSet) : List String → DisjointSet
  | anchor :: others => others.foldl (fun ds other => ds.union nodes anchor other) ds
  | [] => ds

/-- `groups`: each node is put under its root. -/
def DisjointSet.groups (ds : DisjointSet) : Dict String (List String) :=
  (nodes.foldl (fun (s : Dict String (List String) × (String → String)) x =>
    let found := UnionFind.find nodes s.2 x
    (s.1.set found.1 ((s.1.get? found.1).getD [] ++ [x]), found.2)) (Dict.empty, ds.parent)).1

variable {nodes}

theorem find_of_star {p : String → String} {x : String} (hnodes : nodes ≠ [])
    (h : p (p x) = p x) : UnionFind.find nodes p x = (p x, p) := by
  obtain ⟨n, hn⟩ := Nat.exists_eq_succ_of_ne_zero (mt length_eq_zero_iff.mp hnodes)
  have hroot : UnionFind.root nodes p x = p x := by
    rw [UnionFind.root, hn, UnionFind.climb]
    split
    · next hx => exact hx.symm
    · exact UnionFind.climb_of_fixed h n
  have hstays : ∀ r m, UnionFind.compress r m p (p x) = p := by
    intro r m
    cases m with
    | zero => rfl
    | succ m => exact if_pos h
  rw [UnionFind.find, hroot, hn, UnionFind.compress]
  split
  · rfl
  · rw [Function.update_eq_self, hstays]

theorem union_of_star {ds : DisjointSet} {a b : String} (hnodes : nodes ≠ [])
    (ha : ds.parent a = a) (hb : ds.parent b = b) (hne : a ≠ b) (hsize : ds.size b ≤ ds.size a) :
    ds.union nodes a b =
      ⟨Function.update ds.parent b a, Function.update ds.size a (ds.size a + ds.size b)⟩ := by
  have hfa := find_of_star (p := ds.parent) (x := a) hnodes (by rw [ha, ha])
  have hfb := find_of_star (p := ds.parent) (x := b) hnodes (by rw [hb, hb])
  simp only [DisjointSet.union, hfa, hfb, ha, hb, if_neg hne, if_neg (not_lt.mpr hsize)]

theorem foldl_union {a : String} {others : List String} (hnodes : nodes ≠ []) (ds : DisjointSet)
    (ha : ds.parent a = a) (hsize : 1 ≤ ds.size a) (hnodup : (a :: others).Nodup)
    (hfree : ∀ x ∈ others, ds.parent x = x ∧ ds.size x = 1) :
    (∀ y, (others.foldl (fun ds other => ds.union nodes a other) ds).parent y =
      if y ∈ others then a else ds.parent y) ∧
    (∀ y ≠ a, (others.foldl (fun ds other => ds.union nodes a other) ds).size y = ds.size y) ∧
    1 ≤ (others.foldl (fun ds other => ds.union nodes a other) ds).size a := by
  induction others generalizing ds with
  | nil => exact ⟨fun y => by simp, fun _ _ => rfl, hsize⟩
  | cons x others ih =>
    obtain ⟨hax, hnodup'⟩ := nodup_cons.mp hnodup
    obtain ⟨hx, hothers⟩ := nodup_cons.mp hnodup'
    have hne : a ≠ x := fun h => hax (h ▸ mem_cons_self)
    obtain ⟨hxparent, hxsize⟩ := hfree x mem_cons_self
    rw [foldl_cons, union_of_star hnodes ha hxparent hne (by omega)]
    obtain ⟨hparent, hsizes, hpositive⟩ := ih
      ⟨Function.update ds.parent x a, Function.update ds.size a (ds.size a + ds.size x)⟩
      (by simpa only [Function.update_of_ne hne] using ha) (by simp; omega)
      (nodup_cons.mpr ⟨fun h => hax (mem_cons_of_mem _ h), hothers⟩) fun y hy => by
        have hyx : y ≠ x := fun h => hx (h ▸ hy)
        have hya : y ≠ a := fun h => hax (mem_cons_of_mem _ (h ▸ hy))
        simpa only [Function.update_of_ne hyx, Function.update_of_ne hya] using
          hfree y (mem_cons_of_mem _ hy)
    refine ⟨fun y => ?_, fun y hy => ?_, hpositive⟩
    · rw [hparent]
      by_cases hyx : y = x
      · simp [hyx]
      · simp [hyx]
    · exact (hsizes y hy).trans (Function.update_of_ne hy _ _)

/-- Every node of a list points at its first node, and every other at itself. -/
structure Stars (ds : DisjointSet) (lists : List (List String)) : Prop where
  hung : ∀ l ∈ lists, ∀ x ∈ l, l.head? = some (ds.parent x)
  free : ∀ x ∉ lists.flatten, ds.parent x = x ∧ ds.size x = 1

theorem stars_foldl (hnodes : nodes ≠ []) (lists : List (List String)) (h : lists.flatten.Nodup) :
    Stars (lists.foldl (DisjointSet.join nodes) {}) lists := by
  induction lists using List.reverseRecOn with
  | nil => exact ⟨by simp, fun _ _ => ⟨rfl, rfl⟩⟩
  | append_singleton lists l ih =>
    rw [flatten_append, flatten_singleton] at h
    obtain ⟨hlists, hl, hdisjoint⟩ := nodup_append'.mp h
    have hstars := ih hlists
    rw [foldl_append, foldl_cons, foldl_nil]
    generalize lists.foldl (DisjointSet.join nodes) {} = ds at hstars
    cases l with
    | nil =>
      refine ⟨fun l' hl' x hx => ?_, fun x hx => hstars.free x (by simpa using hx)⟩
      rcases mem_append.mp hl' with hl' | hl'
      · exact hstars.hung l' hl' x hx
      · rw [mem_singleton.mp hl'] at hx
        cases hx
    | cons a others =>
      have hout : ∀ x ∈ a :: others, x ∉ lists.flatten := fun x hx hx' => hdisjoint hx' hx
      obtain ⟨hafixed, hasize⟩ := hstars.free a (hout a mem_cons_self)
      obtain ⟨hparent, hsizes, -⟩ := foldl_union hnodes ds hafixed (by omega) hl
        fun x hx => hstars.free x (hout x (mem_cons_of_mem _ hx))
      refine ⟨fun l' hl' x hx => ?_, fun x hx => ?_⟩
      · rcases mem_append.mp hl' with hl' | hl'
        · have hother : x ∉ others := fun hin =>
            hout x (mem_cons_of_mem _ hin) (mem_flatten.mpr ⟨l', hl', hx⟩)
          rw [DisjointSet.join, hparent, if_neg hother]
          exact hstars.hung l' hl' x hx
        · rw [mem_singleton.mp hl'] at hx ⊢
          rw [DisjointSet.join, hparent]
          by_cases hin : x ∈ others
          · rw [if_pos hin, head?_cons]
          · rw [if_neg hin, (mem_cons.mp hx).resolve_right hin, hafixed, head?_cons]
      · rw [flatten_append, flatten_singleton, mem_append, not_or] at hx
        obtain ⟨hold, hnew⟩ := hx
        rw [mem_cons, not_or] at hnew
        rw [DisjointSet.join, hparent, if_neg hnew.2, hsizes x hnew.1]
        exact hstars.free x hold

variable {ds : DisjointSet} {lists : List (List String)}

theorem Stars.flat (h : Stars ds lists) (x : String) :
    ds.parent (ds.parent x) = ds.parent x := by
  by_cases hx : x ∈ lists.flatten
  · obtain ⟨l, hl, hxl⟩ := mem_flatten.mp hx
    have hhead := h.hung l hl x hxl
    have hself := h.hung l hl _ (mem_of_mem_head? hhead)
    exact Option.some.inj (hself.symm.trans hhead)
  · rw [(h.free x hx).1, (h.free x hx).1]

theorem Stars.same_iff (h : Stars ds lists) (hdisjoint : lists.flatten.Nodup) {x y : String} :
    ds.parent x = ds.parent y ↔ x = y ∨ ∃ l ∈ lists, x ∈ l ∧ y ∈ l := by
  constructor
  · intro hsame
    by_cases hx : x ∈ lists.flatten
    · obtain ⟨l, hl, hxl⟩ := mem_flatten.mp hx
      have hhead : ds.parent x ∈ l := mem_of_mem_head? (h.hung l hl x hxl)
      by_cases hy : y ∈ lists.flatten
      · obtain ⟨l', hl', hyl⟩ := mem_flatten.mp hy
        have hhead' : ds.parent x ∈ l' := hsame ▸ mem_of_mem_head? (h.hung l' hl' y hyl)
        have hone : l = l' := by
          by_contra hne
          have hsymm : Std.Symm (@List.Disjoint String) := ⟨fun _ _ hab => hab.symm⟩
          exact (nodup_flatten.mp hdisjoint).2.forall hl hl' hne hhead hhead'
        exact .inr ⟨l, hl, hxl, hone ▸ hyl⟩
      · rw [hsame, (h.free y hy).1] at hhead
        exact absurd (mem_flatten.mpr ⟨l, hl, hhead⟩) hy
    · rw [(h.free x hx).1] at hsame
      by_cases hy : y ∈ lists.flatten
      · obtain ⟨l', hl', hyl⟩ := mem_flatten.mp hy
        have hhead : ds.parent y ∈ l' := mem_of_mem_head? (h.hung l' hl' y hyl)
        exact absurd (mem_flatten.mpr ⟨l', hl', hsame ▸ hhead⟩) hx
      · exact .inl (hsame.trans (h.free y hy).1)
  · rintro (rfl | ⟨l, hl, hx, hy⟩)
    · rfl
    · exact Option.some.inj ((h.hung l hl x hx).symm.trans (h.hung l hl y hy))

/-- **The groups are the nodes under their roots.** -/
theorem Stars.groups_eq (h : Stars ds lists) (hnodes : nodes ≠ []) :
    ds.groups nodes = Dict.groupBy (fun x => some (ds.parent x)) nodes := by
  have hfold : ∀ (l : List String) (d : Dict String (List String)),
      (l.foldl (fun (s : Dict String (List String) × (String → String)) x =>
        let found := UnionFind.find nodes s.2 x
        (s.1.set found.1 ((s.1.get? found.1).getD [] ++ [x]), found.2)) (d, ds.parent)).1 =
      l.foldl (fun d x => d.set (ds.parent x) ((d.get? (ds.parent x)).getD [] ++ [x])) d := by
    intro l
    induction l with
    | nil => exact fun _ => rfl
    | cons x l ih =>
      intro d
      rw [foldl_cons, foldl_cons]
      dsimp only
      rw [find_of_star hnodes (h.flat x)]
      exact ih _
  exact hfold nodes Dict.empty

/-! ### Campaigns -/

open AgenticKibana.Correlation

structure Case where
  caseId : String
  clusterSignature : String := ""
  entity : EntityKey
  createdAt : String := ""
  updatedAt : String := ""
  mitre : List String := []
deriving DecidableEq

/-- What the pass calls: the hashes, `parse_es_timestamp`, the epoch milliseconds of an instant,
`str.strip` with `str.upper`, and the rank of the severity band of a case. -/
structure Site where
  hash : String → String
  idHash : String → String
  instant : String → Option Int
  millis : Int → Int
  technique : String → String
  severity : Case → Nat

structure Campaign where
  id : String
  caseIds : List String
  entities : List EntityKey
  mitre : List String
  firstSeen : Option String
  lastSeen : Option String
  severityRollup : Option Nat
deriving DecidableEq

section Pass

variable (site : Site) (windowSeconds : Int)

def caseMillis (c : Case) : Int :=
  match (site.instant c.updatedAt).or (site.instant c.createdAt) with
  | some instant => site.millis instant
  | none => 0

/-- `_case_entities`: the entity of the case, unless it is blank or a rule. -/
def caseEntity (c : Case) : Option EntityKey :=
  let value := String.ofList (TextLines.strip c.entity.2.toList)
  if value = "" ∨ c.entity.1 = .rule then none else some (c.entity.1, value)

/-- The entity with its `cross_source_signature`. -/
def entityKey (c : Case) : Option (EntityKey × String) :=
  (caseEntity c).map fun e =>
    (e, hashed site.hash (crossSourceParts e.1.value e.2 (caseMillis site c) windowSeconds))

/-! ### What is rolled up -/

/-- The text that is hashed for `_campaign_id`. -/
def signatureSet (cases : List Case) : String :=
  "|".intercalate (sortedSet ((cases.map Case.clusterSignature).filter (· ≠ "")))

def campaignId (cases : List Case) : String := "campaign-" ++ site.idHash (signatureSet cases)

/-- `_rollup_entities`: those that at least two of the cases share in one bucket. -/
def rollupEntities (cases : List Case) : List EntityKey :=
  (((cases.filterMap (entityKey site windowSeconds)).filter fun k =>
    2 ≤ cases.countP fun c => entityKey site windowSeconds c = some k).map Prod.fst).dedup.mergeSort
      keyLe

def rollupMitre (cases : List Case) : List String :=
  sortedSet ((cases.flatMap fun c => c.mitre.map site.technique).filter (· ≠ ""))

def firsts (cases : List Case) : List (Int × String) :=
  cases.filterMap fun c => (site.instant c.createdAt).map fun t => (t, c.createdAt)

def lasts (cases : List Case) : List (Int × String) :=
  cases.filterMap fun c => ((site.instant c.updatedAt).or (site.instant c.createdAt)).map fun t =>
    (t, if c.updatedAt = "" then c.createdAt else c.updatedAt)

/-- The first of the pairs with the least `rank`. -/
def foremost (rank : Int → Int) (pairs : List (Int × String)) : Option (Int × String) :=
  pairs.foldl (fun best e => match best with
    | none => some e
    | some b => if rank e.1 < rank b.1 then some e else some b) none

def campaignOf (cases : List Case) : Campaign where
  id := campaignId site cases
  caseIds := (cases.map Case.caseId).mergeSort (· ≤ ·)
  entities := rollupEntities site windowSeconds cases
  mitre := rollupMitre site cases
  firstSeen := (foremost (fun t => t) (firsts site cases)).map Prod.snd
  lastSeen := (foremost (fun t => -t) (lasts site cases)).map Prod.snd
  severityRollup := (cases.map site.severity).max?

def maxCampaignCases : Nat := 200

def promote (byId : Dict String Case) (memberIds : List String) : Option Campaign :=
  if memberIds.length < 2 then none
  else if maxCampaignCases < memberIds.length then none
  else
    let members := memberIds.filterMap byId.get?
    if rollupEntities site windowSeconds members = [] then none
    else some (campaignOf site windowSeconds members)

def byCaseId (cases : List Case) : Dict String Case :=
  Dict.ofList ((cases.filter fun c => c.caseId ≠ "").map fun c => (c.caseId, c))

def entityToCases (byId : Dict String Case) : List (List String) :=
  (Dict.groupBy (fun cid => ((byId.get? cid).bind (entityKey site windowSeconds)).map Prod.snd)
    byId.keys).values

def promoted (cases : List Case) : List Campaign :=
  let byId := byCaseId cases
  let ds := (entityToCases site windowSeconds byId).foldl (DisjointSet.join byId.keys) {}
  (ds.groups byId.keys).values.filterMap (promote site windowSeconds byId)

def buildCampaigns (cases : List Case) : List Campaign :=
  (promoted site windowSeconds cases).mergeSort fun a b => a.id ≤ b.id

end Pass

/-! ### The groups -/

abbrev Bucket : Type := EntityKey × Int

section Claims

variable (site : Site) (windowSeconds : Int) (cases : List Case)

def bucketOf (c : Case) : Option Bucket :=
  (caseEntity c).map fun e =>
    let ts := caseMillis site c
    (e, if ts = 0 then 0 else ts / (max 1 windowSeconds * 1000))

def sharing (b : Bucket) : List Case := cases.filter fun c => bucketOf site windowSeconds c = some b

def Qualifies (b : Bucket) : Prop :=
  2 ≤ (sharing site windowSeconds cases b).length ∧
    (sharing site windowSeconds cases b).length ≤ maxCampaignCases

/-- **The campaigns partition the groups** that qualify, under distinct ids. -/
structure Partitioned (campaigns : List Campaign) : Prop where
  disjoint : campaigns.Pairwise fun a b => a.caseIds.Disjoint b.caseIds
  distinct : campaigns.Pairwise fun a b => a.id ≠ b.id
  groups : ∀ a ∈ campaigns, ∃ b, Qualifies site windowSeconds cases b ∧
    a.caseIds.Perm ((sharing site windowSeconds cases b).map Case.caseId)
  every : ∀ b, Qualifies site windowSeconds cases b → ∃ a ∈ campaigns,
    a.caseIds.Perm ((sharing site windowSeconds cases b).map Case.caseId)

structure Campaigned : Prop where
  partitioned : Partitioned site windowSeconds cases (buildCampaigns site windowSeconds cases)
  order : ∀ cases', cases'.Perm cases →
    buildCampaigns site windowSeconds cases' = buildCampaigns site windowSeconds cases

def OneText (rank : Int → Int) (pairs : List (Int × String)) : Prop :=
  ∀ e ∈ pairs, ∀ e' ∈ pairs, (∀ x ∈ pairs, rank e.1 ≤ rank x.1) →
    (∀ x ∈ pairs, rank e'.1 ≤ rank x.1) → e.2 = e'.2

/-- No two groups have one set of signatures, and in each the earliest and the latest instant are
each written in one way. -/
structure Told : Prop where
  apart : ∀ b b', Qualifies site windowSeconds cases b → Qualifies site windowSeconds cases b' →
    signatureSet (sharing site windowSeconds cases b) =
      signatureSet (sharing site windowSeconds cases b') → b = b'
  first : ∀ b, Qualifies site windowSeconds cases b →
    OneText (fun t => t) (firsts site (sharing site windowSeconds cases b))
  last : ∀ b, Qualifies site windowSeconds cases b →
    OneText (fun t => -t) (lasts site (sharing site windowSeconds cases b))

structure Ids : Prop where
  nodup : (cases.map Case.caseId).Nodup
  named : ∀ c ∈ cases, c.caseId ≠ ""

end Claims

variable {site : Site} {windowSeconds : Int} {cases cases' : List Case} {c : Case} {b b' : Bucket}

def bucketKey (site : Site) (b : Bucket) : String :=
  hashed site.hash ["xsrc", b.1.1.value, b.1.2, toString b.2]

theorem entityKey_eq (c : Case) : entityKey site windowSeconds c =
    (bucketOf site windowSeconds c).map fun b => (b.1, bucketKey site b) := by
  rw [entityKey, bucketOf, Option.map_map]
  rfl

theorem bar_notMem_int (n : Int) : '|' ∉ (toString n).toList := by
  intro h
  have hdigits : ∀ m : Nat, '|' ∉ Nat.toDigits 10 m := fun m hm => by
    have hdigit := Nat.isDigit_of_mem_toDigits (by decide) (by decide) hm
    simp at hdigit
  cases n with
  | ofNat m => exact hdigits m (by simpa [Int.toString_eq_repr, Int.repr] using h)
  | negSucc m => exact hdigits (m + 1) (by simpa [Int.toString_eq_repr, Int.repr] using h)

theorem bucketKey_injective (hhash : Function.Injective site.hash) :
    Function.Injective (bucketKey site) := by
  rintro ⟨⟨et, v⟩, n⟩ ⟨⟨et', v'⟩, n'⟩ h
  have htext := congrArg String.toList (hhash h)
  have hread : et.value.toList ++ '|' :: (v.toList ++ '|' :: (toString n).toList) =
      et'.value.toList ++ '|' :: (v'.toList ++ '|' :: (toString n').toList) := by
    simpa [signatureText] using htext
  obtain ⟨rfl, hrest⟩ := value_inj hread
  -- the last bar, from the end
  have hback := congrArg List.reverse hrest
  simp only [reverse_append, reverse_cons, append_assoc, singleton_append]
    at hback
  rcases cut_bar (by simpa using bar_notMem_int n) hback with ⟨hn, hv⟩ | ⟨w, hn, -⟩
  · rw [String.toList_injective (reverse_injective hv)]
    have hsame : n = n' := Int.repr_injective
      (String.toList_injective (reverse_injective hn)).symm
    rw [hsame]
  · have : '|' ∈ (toString n').toList.reverse := hn ▸ by simp
    exact absurd (mem_reverse.mp this) (bar_notMem_int n')

/-! ### The components -/

theorem groupBy_disjoint (f : String → Option String) (l : List String) :
    (Dict.groupBy f l).values.Pairwise List.Disjoint := by
  refine pairwise_map.mpr (List.Pairwise.imp_of_mem ?_
    (pairwise_map.mp (Dict.groupBy f l).nodup))
  intro e e' he he' hne x hx hx'
  rw [(Dict.mem_groupBy.mp he).1, mem_filter, decide_eq_true_eq] at hx
  rw [(Dict.mem_groupBy.mp he').1, mem_filter, decide_eq_true_eq] at hx'
  exact hne (Option.some.inj (hx.2.symm.trans hx'.2))

section Components

variable (hids : Ids cases)
include hids

theorem entries_byCaseId : (byCaseId cases).entries = cases.map fun c => (c.caseId, c) := by
  have hall : cases.filter (fun c => c.caseId ≠ "") = cases :=
    filter_eq_self.mpr fun c hc => decide_eq_true (hids.named c hc)
  rw [byCaseId, hall]
  exact Dict.entries_ofList (by simpa [map_map, Function.comp_def] using hids.nodup)

theorem keys_byCaseId : (byCaseId cases).keys = cases.map Case.caseId := by
  rw [Dict.keys, entries_byCaseId hids, map_map]
  rfl

theorem get?_byCaseId (hc : c ∈ cases) : (byCaseId cases).get? c.caseId = some c := by
  rw [Dict.get?_eq_some_iff, entries_byCaseId hids]
  exact mem_map_of_mem hc

theorem filterMap_byCaseId (p : String → Bool) :
    ((cases.map Case.caseId).filter p).filterMap (byCaseId cases).get? =
      cases.filter fun c => p c.caseId := by
  have hsub : ∀ l : List Case, l ⊆ cases → ((l.map Case.caseId).filter p).filterMap
      (byCaseId cases).get? = l.filter fun c => p c.caseId := by
    intro l hl
    induction l with
    | nil => rfl
    | cons c l ih =>
      have hget := get?_byCaseId hids (hl mem_cons_self)
      have hrest := ih fun x hx => hl (mem_cons_of_mem _ hx)
      by_cases hp : p c.caseId = true <;> simp [hp, hget, hrest]
  exact hsub cases (List.Subset.refl _)

def keyOf (site : Site) (windowSeconds : Int) (byId : Dict String Case) (x : String) :
    Option String :=
  ((byId.get? x).bind (entityKey site windowSeconds)).map Prod.snd

theorem keyOf_caseId (hc : c ∈ cases) : keyOf site windowSeconds (byCaseId cases) c.caseId =
    (bucketOf site windowSeconds c).map (bucketKey site) := by
  rw [keyOf, get?_byCaseId hids hc, Option.bind_some, entityKey_eq, Option.map_map]
  rfl

omit hids in
theorem mem_entityToCases {byId : Dict String Case} {l : List String}
    (hl : l ∈ entityToCases site windowSeconds byId) :
    ∃ k, l = byId.keys.filter fun x => keyOf site windowSeconds byId x = some k := by
  obtain ⟨k, hk⟩ := Dict.mem_values_iff.mp hl
  rw [Dict.get?_eq_some_iff] at hk
  exact ⟨k, (Dict.mem_groupBy.mp hk).1⟩

theorem nodup_keys : (byCaseId cases).keys.Nodup := keys_byCaseId hids ▸ hids.nodup

theorem nodup_entityToCases :
    (entityToCases site windowSeconds (byCaseId cases)).flatten.Nodup := by
  refine nodup_flatten.mpr ⟨fun l hl => ?_, groupBy_disjoint _ _⟩
  obtain ⟨k, rfl⟩ := mem_entityToCases hl
  exact (nodup_keys hids).filter _

def joined (site : Site) (windowSeconds : Int) (cases : List Case) : DisjointSet :=
  (entityToCases site windowSeconds (byCaseId cases)).foldl
    (DisjointSet.join (byCaseId cases).keys) {}

theorem joined_stars (hne : (byCaseId cases).keys ≠ []) :
    Stars (joined site windowSeconds cases) (entityToCases site windowSeconds (byCaseId cases)) :=
  stars_foldl hne _ (nodup_entityToCases hids)

/-- **Two cases are joined exactly when they share an entity within a bucket.** -/
theorem joined_iff (hhash : Function.Injective site.hash) (hc : c ∈ cases) {c' : Case}
    (hc' : c' ∈ cases) : (joined site windowSeconds cases).parent c.caseId =
      (joined site windowSeconds cases).parent c'.caseId ↔
    c = c' ∨ ∃ b, bucketOf site windowSeconds c = some b ∧
      bucketOf site windowSeconds c' = some b := by
  have hkeys := keys_byCaseId hids
  have hmem : ∀ x ∈ cases, x.caseId ∈ (byCaseId cases).keys := fun x hx =>
    hkeys ▸ mem_map_of_mem hx
  rw [(joined_stars hids (ne_nil_of_mem (hmem c hc))).same_iff (nodup_entityToCases hids)]
  refine or_congr ⟨fun h => inj_on_of_nodup_map hids.nodup hc hc' h, congrArg _⟩ ⟨?_, ?_⟩
  · rintro ⟨l, hl, hx, hy⟩
    obtain ⟨k, rfl⟩ := mem_entityToCases hl
    simp only [mem_filter, keyOf_caseId hids hc, keyOf_caseId hids hc', decide_eq_true_eq,
      Option.map_eq_some_iff] at hx hy
    obtain ⟨-, b, hb, rfl⟩ := hx
    obtain ⟨-, b', hb', hsame⟩ := hy
    exact ⟨b, hb, bucketKey_injective hhash hsame ▸ hb'⟩
  · rintro ⟨b, hb, hb'⟩
    have hin : ∀ x ∈ cases, bucketOf site windowSeconds x = some b →
        x.caseId ∈ (byCaseId cases).keys.filter fun x =>
          keyOf site windowSeconds (byCaseId cases) x = some (bucketKey site b) := by
      intro x hx hbx
      simp [mem_filter, hmem x hx, keyOf_caseId hids hx, hbx]
    have hentry := Dict.mem_groupBy.mpr
      ⟨rfl, ne_nil_of_mem (hin c hc hb)⟩
    exact ⟨_, mem_map_of_mem hentry, hin c hc hb, hin c' hc' hb'⟩

theorem values_groups : ((joined site windowSeconds cases).groups (byCaseId cases).keys).values =
    (Dict.groupBy (fun x => some ((joined site windowSeconds cases).parent x))
      (byCaseId cases).keys).values := by
  by_cases hne : (byCaseId cases).keys = []
  · rw [hne]
    rfl
  · rw [(joined_stars hids hne).groups_eq hne]

theorem filter_root (hhash : Function.Injective site.hash) (hc : c ∈ cases) :
    cases.filter (fun x => decide (some ((joined site windowSeconds cases).parent x.caseId) =
        some ((joined site windowSeconds cases).parent c.caseId))) =
      match bucketOf site windowSeconds c with
      | some b => sharing site windowSeconds cases b
      | none => [c] := by
  cases hb : bucketOf site windowSeconds c with
  | some b =>
    refine filter_congr fun x hx => decide_eq_decide.mpr ?_
    rw [Option.some.injEq, joined_iff hids hhash hx hc]
    constructor
    · rintro (rfl | ⟨b', hx', hc'⟩)
      · exact hb
      · exact hx'.trans (hc'.symm.trans hb)
    · exact fun hx' => .inr ⟨b, hx', hb⟩
  | none =>
    have hone : cases.filter (fun x => decide
      (some ((joined site windowSeconds cases).parent x.caseId) =
        some ((joined site windowSeconds cases).parent c.caseId))) = cases.filter (· = c) := by
      refine filter_congr fun x hx => decide_eq_decide.mpr ?_
      rw [Option.some.injEq, joined_iff hids hhash hx hc]
      simp [hb]
    rw [hone, filter_eq, count_eq_one_of_mem (List.Nodup.of_map _ hids.nodup) hc]
    rfl

end Components

theorem mem_sharing : c ∈ sharing site windowSeconds cases b ↔
    c ∈ cases ∧ bucketOf site windowSeconds c = some b := by
  simp [sharing]

theorem rollupEntities_sharing (h : 2 ≤ (sharing site windowSeconds cases b).length) :
    rollupEntities site windowSeconds (sharing site windowSeconds cases b) = [b.1] := by
  have hall : ∀ c ∈ sharing site windowSeconds cases b,
      entityKey site windowSeconds c = some (b.1, bucketKey site b) := by
    intro c hc
    rw [entityKey_eq, (mem_sharing.mp hc).2, Option.map_some]
  generalize sharing site windowSeconds cases b = members at h hall
  have hkeys : members.filterMap (entityKey site windowSeconds) =
      List.replicate members.length (b.1, bucketKey site b) := by
    rw [filterMap_congr hall, filterMap_eq_map', map_const']
  have hcount : members.countP (fun c => entityKey site windowSeconds c =
      some (b.1, bucketKey site b)) = members.length :=
    countP_eq_length.mpr fun c hc => decide_eq_true (hall c hc)
  rw [rollupEntities, hkeys, filter_replicate, hcount, if_pos (decide_eq_true h),
    map_replicate, replicate_dedup (by omega),
    mergeSort_singleton]

section Promoted

variable (hids : Ids cases) (hhash : Function.Injective site.hash)
include hids

theorem promote_filter (p : String → Bool) {members : List Case}
    (hmembers : (cases.filter fun c => p c.caseId) = members) :
    promote site windowSeconds (byCaseId cases) ((cases.map Case.caseId).filter p) =
      if members.length < 2 then none else if maxCampaignCases < members.length then none
      else if rollupEntities site windowSeconds members = [] then none
      else some (campaignOf site windowSeconds members) := by
  have hlength : ((cases.map Case.caseId).filter p).length = members.length := by
    rw [filter_map, length_map, ← hmembers]
    rfl
  simp only [promote, filterMap_byCaseId hids, hlength, hmembers]

theorem mem_values {ids : List String} (hids' : ids ∈
    ((joined site windowSeconds cases).groups (byCaseId cases).keys).values) :
    ∃ c ∈ cases, ids = (cases.map Case.caseId).filter fun x =>
      some ((joined site windowSeconds cases).parent x) =
        some ((joined site windowSeconds cases).parent c.caseId) := by
  rw [values_groups hids] at hids'
  obtain ⟨r, hr⟩ := Dict.mem_values_iff.mp hids'
  rw [Dict.get?_eq_some_iff] at hr
  obtain ⟨hgroup, hfull⟩ := Dict.mem_groupBy.mp hr
  obtain ⟨x, hx⟩ := exists_mem_of_ne_nil _ hfull
  rw [hgroup, mem_filter, keys_byCaseId hids, mem_map, decide_eq_true_eq] at hx
  obtain ⟨⟨c, hc, rfl⟩, hroot⟩ := hx
  exact ⟨c, hc, by rw [hgroup, keys_byCaseId hids, hroot]⟩

theorem promoted_disjoint :
    (promoted site windowSeconds cases).Pairwise fun a b => a.caseIds.Disjoint b.caseIds := by
  have hperm : ∀ ids ∈ ((joined site windowSeconds cases).groups (byCaseId cases).keys).values,
      ∀ a, promote site windowSeconds (byCaseId cases) ids = some a → a.caseIds.Perm ids := by
    intro ids hvalues a ha
    obtain ⟨c, -, rfl⟩ := mem_values hids hvalues
    rw [promote_filter hids _ rfl] at ha
    split_ifs at ha
    rw [← Option.some.inj ha, filter_map]
    exact mergeSort_perm _ _
  have hvalues := groupBy_disjoint (fun x => some ((joined site windowSeconds cases).parent x))
    (byCaseId cases).keys
  rw [← values_groups hids] at hvalues
  refine pairwise_filterMap.mpr (List.Pairwise.imp_of_mem ?_ hvalues)
  intro ids ids' hl hl' hdisjoint a ha a' ha' x hx hx'
  exact hdisjoint ((hperm ids hl a ha).mem_iff.mp hx) ((hperm ids' hl' a' ha').mem_iff.mp hx')

include hhash

/-- **The campaigns are those of the groups that qualify.** -/
theorem mem_promoted {a : Campaign} : a ∈ promoted site windowSeconds cases ↔
    ∃ b, Qualifies site windowSeconds cases b ∧
      a = campaignOf site windowSeconds (sharing site windowSeconds cases b) := by
  constructor
  · intro h
    obtain ⟨ids, hvalues, ha⟩ := mem_filterMap.mp h
    obtain ⟨c, hc, rfl⟩ := mem_values hids hvalues
    have hroot := @filter_root site windowSeconds cases c hids hhash hc
    generalize hb : bucketOf site windowSeconds c = bucket at hroot
    cases bucket with
    | some b =>
      rw [promote_filter hids _ hroot] at ha
      split_ifs at ha with htwo hcap
      exact ⟨b, ⟨not_lt.mp htwo, not_lt.mp hcap⟩, (Option.some.inj ha).symm⟩
    | none =>
      rw [promote_filter hids _ hroot, if_pos (by simp)] at ha
      cases ha
  · rintro ⟨b, hqualifies, rfl⟩
    obtain ⟨c, hc⟩ := exists_mem_of_length_pos (by have := hqualifies.1; omega :
      0 < (sharing site windowSeconds cases b).length)
    obtain ⟨hmem, hb⟩ := mem_sharing.mp hc
    have hroot := @filter_root site windowSeconds cases c hids hhash hmem
    rw [hb] at hroot
    have hkey : c.caseId ∈ (byCaseId cases).keys :=
      keys_byCaseId hids ▸ mem_map_of_mem hmem
    refine mem_filterMap.mpr ⟨(byCaseId cases).keys.filter fun x =>
      some ((joined site windowSeconds cases).parent x) =
        some ((joined site windowSeconds cases).parent c.caseId), ?_, ?_⟩
    · rw [← joined, values_groups hids]
      exact mem_map_of_mem (Dict.mem_groupBy.mpr ⟨rfl, ne_nil_of_mem
        (mem_filter.mpr ⟨hkey, by simp⟩)⟩)
    · rw [keys_byCaseId hids, promote_filter hids _ hroot, if_neg (not_lt.mpr hqualifies.1),
        if_neg (not_lt.mpr hqualifies.2), rollupEntities_sharing hqualifies.1, if_neg (by simp)]

end Promoted

/-! ### Distinct ids, and any order of the cases -/

variable {site : Site} {windowSeconds : Int} {cases cases' : List Case} {b b' : Bucket}

section Foremost

variable {rank : Int → Int} {pairs pairs' : List (Int × String)}

theorem foremost_snoc (e : Int × String) : foremost rank (pairs ++ [e]) =
    match foremost rank pairs with
    | none => some e
    | some b => if rank e.1 < rank b.1 then some e else some b :=
  foldl_concat _ _ _ _

theorem foremost_isSome (rank : Int → Int) (hne : pairs ≠ []) :
    ∃ b ∈ pairs, foremost rank pairs = some b ∧ ∀ x ∈ pairs, rank b.1 ≤ rank x.1 := by
  induction pairs using List.reverseRecOn with
  | nil => exact absurd rfl hne
  | append_singleton pairs e ih =>
    rw [foremost_snoc]
    by_cases hnil : pairs = []
    · subst hnil
      exact ⟨e, by simp, rfl, by simp⟩
    · obtain ⟨b, hb, hsome, hleast⟩ := ih hnil
      rw [hsome]
      by_cases hlt : rank e.1 < rank b.1
      · refine ⟨e, by simp, if_pos hlt, fun x hx => ?_⟩
        rcases mem_append.mp hx with hx | hx
        · exact hlt.le.trans (hleast x hx)
        · rw [mem_singleton.mp hx]
      · refine ⟨b, by simp [hb], if_neg hlt, fun x hx => ?_⟩
        rcases mem_append.mp hx with hx | hx
        · exact hleast x hx
        · rw [mem_singleton.mp hx]
          exact not_lt.mp hlt

theorem foremost_cons {e : Int × String} (h : ∀ x ∈ pairs, rank e.1 ≤ rank x.1) :
    foremost rank (e :: pairs) = some e := by
  induction pairs using List.reverseRecOn with
  | nil => rfl
  | append_singleton pairs x ih =>
    rw [← List.cons_append, foremost_snoc, ih fun y hy => h y (mem_append_left _ hy)]
    exact if_neg (not_lt.mpr (h x (by simp)))

theorem foremost_perm (hone : OneText rank pairs) (h : pairs.Perm pairs') :
    (foremost rank pairs).map Prod.snd = (foremost rank pairs').map Prod.snd := by
  by_cases hnil : pairs = []
  · subst hnil
    rw [h.symm.eq_nil]
  · have hnil' : pairs' ≠ [] := fun hnil' => hnil (hnil' ▸ h).eq_nil
    obtain ⟨e, he, hsome, hleast⟩ := foremost_isSome rank hnil
    obtain ⟨e', he', hsome', hleast'⟩ := foremost_isSome rank hnil'
    rw [hsome, hsome', Option.map_some, Option.map_some,
      hone e he e' (h.mem_iff.mpr he') hleast fun x hx => hleast' x (h.mem_iff.mp hx)]

end Foremost

theorem Ids.perm (h : Ids cases) (hperm : cases'.Perm cases) : Ids cases' where
  nodup := (hperm.map _).nodup_iff.mpr h.nodup
  named c hc := h.named c (hperm.mem_iff.mp hc)

theorem sharing_perm (h : cases'.Perm cases) (b : Bucket) :
    (sharing site windowSeconds cases' b).Perm (sharing site windowSeconds cases b) :=
  h.filter _

theorem Qualifies.perm (h : cases'.Perm cases) :
    Qualifies site windowSeconds cases' b ↔ Qualifies site windowSeconds cases b := by
  rw [Qualifies, Qualifies, (sharing_perm h b).length_eq]

theorem signatureSet_perm (h : cases'.Perm cases) : signatureSet cases' = signatureSet cases := by
  rw [signatureSet, signatureSet, sortedSet_perm ((h.map _).filter _)]

theorem campaignOf_perm (h : cases'.Perm cases) (hq : Qualifies site windowSeconds cases b)
    (hfirst : OneText (fun t => t) (firsts site (sharing site windowSeconds cases b)))
    (hlast : OneText (fun t => -t) (lasts site (sharing site windowSeconds cases b))) :
    campaignOf site windowSeconds (sharing site windowSeconds cases' b) =
      campaignOf site windowSeconds (sharing site windowSeconds cases b) := by
  have hshare : (sharing site windowSeconds cases' b).Perm (sharing site windowSeconds cases b) :=
    sharing_perm h b
  have hq' := (Qualifies.perm h).mpr hq
  have hids : ((sharing site windowSeconds cases' b).map Case.caseId).mergeSort (· ≤ ·) =
      ((sharing site windowSeconds cases b).map Case.caseId).mergeSort (· ≤ ·) :=
    mergeSort_le_congr (hshare.map _)
  have hmitre : rollupMitre site (sharing site windowSeconds cases' b) =
      rollupMitre site (sharing site windowSeconds cases b) :=
    sortedSet_perm ((hshare.flatMap_right _).filter _)
  have hfirsts : (firsts site (sharing site windowSeconds cases b)).Perm
      (firsts site (sharing site windowSeconds cases' b)) := hshare.symm.filterMap _
  have hlasts : (lasts site (sharing site windowSeconds cases b)).Perm
      (lasts site (sharing site windowSeconds cases' b)) := hshare.symm.filterMap _
  rw [campaignOf, campaignOf, campaignId, campaignId, signatureSet_perm hshare, hids, hmitre,
    rollupEntities_sharing hq.1, rollupEntities_sharing hq'.1, foremost_perm hfirst hfirsts,
    foremost_perm hlast hlasts, max?_congr (hshare.map _)]

theorem caseIds_perm (site : Site) (windowSeconds : Int) (members : List Case) :
    (campaignOf site windowSeconds members).caseIds.Perm (members.map Case.caseId) :=
  mergeSort_perm _ _

/-! ### Both directions -/

section Directions

theorem eq_of_caseIds (hids : Ids cases) (hperm : cases'.Perm cases)
    (hc : c ∈ sharing site windowSeconds cases' b)
    (h : (campaignOf site windowSeconds (sharing site windowSeconds cases' b)).caseIds =
      (campaignOf site windowSeconds (sharing site windowSeconds cases b')).caseIds) : b = b' := by
  have hin := (caseIds_perm site windowSeconds _).mem_iff.mpr (List.mem_map_of_mem hc)
  rw [h, (caseIds_perm site windowSeconds _).mem_iff] at hin
  obtain ⟨x, hx, hsame⟩ := List.mem_map.mp hin
  obtain ⟨hxmem, hxb⟩ := mem_sharing.mp hx
  obtain ⟨hcmem, hcb⟩ := mem_sharing.mp hc
  rw [inj_on_of_nodup_map hids.nodup hxmem (hperm.mem_iff.mp hcmem) hsame, hcb] at hxb
  exact Option.some.inj hxb

theorem exists_mem_sharing (hq : Qualifies site windowSeconds cases b) :
    ∃ c, c ∈ sharing site windowSeconds cases b :=
  exists_mem_of_length_pos (lt_of_lt_of_le (by decide) hq.1)

theorem not_disjoint_self (hq : Qualifies site windowSeconds cases b) :
    ¬ (campaignOf site windowSeconds (sharing site windowSeconds cases b)).caseIds.Disjoint
      (campaignOf site windowSeconds (sharing site windowSeconds cases b)).caseIds := by
  intro hdisjoint
  obtain ⟨c, hc⟩ := exists_mem_sharing hq
  have hin := (caseIds_perm site windowSeconds _).mem_iff.mpr (List.mem_map_of_mem hc)
  exact hdisjoint hin hin

theorem build_perm (cases : List Case) :
    (buildCampaigns site windowSeconds cases).Perm (promoted site windowSeconds cases) :=
  mergeSort_perm _ _

variable (hids : Ids cases) (hhash : Function.Injective site.hash)
include hids hhash

theorem campaigned_of_told (hidHash : Function.Injective site.idHash)
    (h : Told site windowSeconds cases) : Campaigned site windowSeconds cases := by
  have hdistinct : (promoted site windowSeconds cases).Pairwise fun a b => a.id ≠ b.id := by
    refine List.Pairwise.imp_of_mem ?_ (promoted_disjoint hids)
    intro a a' ha ha' hdisjoint hid
    obtain ⟨b, hq, rfl⟩ := (mem_promoted hids hhash).mp ha
    obtain ⟨b', hq', rfl⟩ := (mem_promoted hids hhash).mp ha'
    have htext : site.idHash (signatureSet (sharing site windowSeconds cases b)) =
        site.idHash (signatureSet (sharing site windowSeconds cases b')) :=
      String.toList_injective (by simpa [campaignOf, campaignId] using congrArg String.toList hid)
    obtain rfl := h.apart b b' hq hq' (hidHash htext)
    exact not_disjoint_self hq hdisjoint
  refine ⟨⟨?_, ?_, ?_, ?_⟩, ?_⟩
  · exact ((build_perm cases).pairwise_iff fun hab => hab.symm).mpr (promoted_disjoint hids)
  · exact ((build_perm cases).pairwise_iff fun hab => hab.symm).mpr hdistinct
  · intro a ha
    obtain ⟨b, hq, rfl⟩ := (mem_promoted hids hhash).mp ((build_perm cases).mem_iff.mp ha)
    exact ⟨b, hq, mergeSort_perm _ _⟩
  · intro b hq
    exact ⟨_, (build_perm cases).mem_iff.mpr ((mem_promoted hids hhash).mpr ⟨b, hq, rfl⟩),
      mergeSort_perm _ _⟩
  · intro cases' hperm
    have hids' := hids.perm hperm
    have hsame : (promoted site windowSeconds cases').Perm (promoted site windowSeconds cases) := by
      refine (perm_ext_iff_of_nodup ?_ ?_).mpr fun a => ?_
      · refine List.Pairwise.imp_of_mem ?_ (promoted_disjoint hids')
        rintro a a' ha - hdisjoint rfl
        obtain ⟨b, hq, rfl⟩ := (mem_promoted hids' hhash).mp ha
        exact not_disjoint_self hq hdisjoint
      · exact hdistinct.imp fun hne heq => hne (congrArg _ heq)
      · rw [mem_promoted hids' hhash, mem_promoted hids hhash]
        refine exists_congr fun b => ?_
        rw [Qualifies.perm hperm]
        refine and_congr_right fun hq => ?_
        rw [campaignOf_perm hperm hq (h.first b hq) (h.last b hq)]
    have hsorted : ∀ l : List Campaign, (l.mergeSort fun a b => a.id ≤ b.id).Pairwise
        fun a b => (a.id ≤ b.id : Bool) = true := fun l => by
      refine pairwise_mergeSort (fun a b c hab hbc => ?_) (fun a b => ?_) l
      · exact decide_eq_true ((of_decide_eq_true hab).trans (of_decide_eq_true hbc))
      · simpa using le_total a.id b.id
    refine List.Perm.eq_of_pairwise (fun a a' ha ha' hle hge => ?_) (hsorted _) (hsorted _)
      ((build_perm cases').trans (hsame.trans (build_perm cases).symm))
    -- two campaigns of one id are one
    have hid := le_antisymm (of_decide_eq_true hle) (of_decide_eq_true hge)
    by_contra hne
    have hsymm : Std.Symm fun a b : Campaign => a.id ≠ b.id := ⟨fun _ _ hab => hab.symm⟩
    exact hdistinct.forall (hsame.mem_iff.mp ((build_perm cases').mem_iff.mp ha))
      ((build_perm cases).mem_iff.mp ha') hne hid

omit hids hhash in
/-- If the foremost text of a group does not depend on the order, every case with the least rank
shows it: put it first. -/
theorem oneText_of_stays {rank : Int → Int} {g : Case → Option (Int × String)}
    (h : ∀ cases', cases'.Perm cases →
      (foremost rank ((sharing site windowSeconds cases' b).filterMap g)).map Prod.snd =
        (foremost rank ((sharing site windowSeconds cases b).filterMap g)).map Prod.snd) :
    OneText rank ((sharing site windowSeconds cases b).filterMap g) := by
  have hshown : ∀ e ∈ (sharing site windowSeconds cases b).filterMap g,
      (∀ x ∈ (sharing site windowSeconds cases b).filterMap g, rank e.1 ≤ rank x.1) →
      (foremost rank ((sharing site windowSeconds cases b).filterMap g)).map Prod.snd =
        some e.2 := by
    intro e he hleast
    obtain ⟨c, hc, hg⟩ := mem_filterMap.mp he
    obtain ⟨hmem, hb⟩ := mem_sharing.mp hc
    have hperm := (perm_cons_erase hmem).symm
    have hfront : (sharing site windowSeconds (c :: cases.erase c) b).filterMap g =
        e :: (sharing site windowSeconds (cases.erase c) b).filterMap g := by
      rw [sharing, filter_cons_of_pos (by simpa using hb), filterMap_cons_some hg]
      rfl
    rw [← h _ hperm, hfront, foremost_cons, Option.map_some]
    intro x hx
    refine hleast x (((sharing_perm hperm b).filterMap g).mem_iff.mp ?_)
    rw [hfront]
    exact mem_cons_of_mem _ hx
  intro e he e' he' hleast hleast'
  exact Option.some.inj ((hshown e he hleast).symm.trans (hshown e' he' hleast'))

theorem told_of_campaigned (h : Campaigned site windowSeconds cases) :
    Told site windowSeconds cases := by
  have hmem : ∀ b, Qualifies site windowSeconds cases b →
      campaignOf site windowSeconds (sharing site windowSeconds cases b) ∈
        buildCampaigns site windowSeconds cases := fun b hq =>
    (build_perm cases).mem_iff.mpr ((mem_promoted hids hhash).mpr ⟨b, hq, rfl⟩)
  -- the campaign of a group stays what it is, however the cases are listed
  have hstays : ∀ b cases', Qualifies site windowSeconds cases b → cases'.Perm cases →
      campaignOf site windowSeconds (sharing site windowSeconds cases' b) =
        campaignOf site windowSeconds (sharing site windowSeconds cases b) := by
    intro b cases' hq hperm
    have hq' := (Qualifies.perm hperm).mpr hq
    have hin := (build_perm cases').mem_iff.mpr
      ((mem_promoted (hids.perm hperm) hhash).mpr ⟨b, hq', rfl⟩)
    rw [h.order cases' hperm] at hin
    obtain ⟨b', -, hsame⟩ := (mem_promoted hids hhash).mp ((build_perm cases).mem_iff.mp hin)
    obtain ⟨c, hc⟩ := exists_mem_sharing hq'
    obtain rfl := eq_of_caseIds hids hperm hc (congrArg _ hsame)
    exact hsame
  refine ⟨fun b b' hq hq' hset => ?_, fun b hq => ?_, fun b hq => ?_⟩
  · by_contra hne
    have hsymm : Std.Symm fun a b : Campaign => a.id ≠ b.id := ⟨fun _ _ hab => hab.symm⟩
    refine h.partitioned.distinct.forall (hmem b hq) (hmem b' hq') (fun hsame => ?_)
      (congrArg (fun text => "campaign-" ++ site.idHash text) hset)
    obtain ⟨c, hc⟩ := exists_mem_sharing hq
    exact hne (eq_of_caseIds hids (List.Perm.refl _) hc (congrArg _ hsame))
  · exact oneText_of_stays fun cases' hperm =>
      congrArg Campaign.firstSeen (hstays b cases' hq hperm)
  · exact oneText_of_stays fun cases' hperm => congrArg Campaign.lastSeen (hstays b cases' hq hperm)

/-- **Campaigns are the groups under distinct ids, in any order of the cases, exactly where no two
groups have one set of signatures and no time is written in two ways**, over hashes that are
injective. -/
theorem campaigns_iff (hidHash : Function.Injective site.idHash) :
    Campaigned site windowSeconds cases ↔ Told site windowSeconds cases :=
  ⟨told_of_campaigned hids hhash, campaigned_of_told hids hhash hidHash⟩

end Directions

def twoDays : Site where
  hash := id
  idHash := id
  instant text :=
    if text = "2026-01-01T08:00:00+00:00" then some 1767254400000000
    else if text = "2026-01-02T08:00:00+00:00" then some 1767340800000000 else none
  millis t := t / 1000
  technique := id
  severity _ := 0

def caseAt (caseId time : String) : Case :=
  { caseId, clusterSignature := "sig-1", entity := (.ip, "10.0.0.9"), createdAt := time
    updatedAt := time }

def firstDay : List Case :=
  [caseAt "case-1" "2026-01-01T08:00:00+00:00", caseAt "case-2" "2026-01-01T08:00:00+00:00"]

def secondDay : List Case :=
  [caseAt "case-3" "2026-01-02T08:00:00+00:00", caseAt "case-4" "2026-01-02T08:00:00+00:00"]

theorem told_firstDay : Told twoDays 86400 firstDay := by
  have hbucket : ∀ c ∈ firstDay, bucketOf twoDays 86400 c = some ((.ip, "10.0.0.9"), 20454) := by
    decide
  have honly : ∀ b, Qualifies twoDays 86400 firstDay b → b = ((.ip, "10.0.0.9"), 20454) := by
    rintro b ⟨htwo, -⟩
    obtain ⟨c, hc⟩ := List.exists_mem_of_length_pos (Nat.lt_of_lt_of_le Nat.zero_lt_two htwo)
    obtain ⟨hmem, hb⟩ := List.mem_filter.mp hc
    exact Option.some.inj ((of_decide_eq_true hb).symm.trans (hbucket c hmem))
  refine ⟨fun b b' hb hb' _ => (honly b hb).trans (honly b' hb').symm, fun b hb => ?_,
    fun b hb => ?_⟩
  · rw [honly b hb]
    have hone : ∀ e ∈ firsts twoDays (sharing twoDays 86400 firstDay ((.ip, "10.0.0.9"), 20454)),
        e.2 = "2026-01-01T08:00:00+00:00" := by decide
    exact fun e he e' he' _ _ => (hone e he).trans (hone e' he').symm
  · rw [honly b hb]
    have hone : ∀ e ∈ lasts twoDays (sharing twoDays 86400 firstDay ((.ip, "10.0.0.9"), 20454)),
        e.2 = "2026-01-01T08:00:00+00:00" := by decide
    exact fun e he e' he' _ _ => (hone e he).trans (hone e' he').symm

theorem campaigns_firstDay : Campaigned twoDays 86400 firstDay :=
  (campaigns_iff ⟨by decide, by decide⟩ Function.injective_id Function.injective_id).mpr
    told_firstDay

theorem one_id_for_two : ¬ Campaigned twoDays 86400 (firstDay ++ secondDay) := by
  intro h
  have htold := told_of_campaigned ⟨by decide, by decide⟩ Function.injective_id h
  have hset : (sharing twoDays 86400 (firstDay ++ secondDay) ((.ip, "10.0.0.9"), 20454)).map
      Case.clusterSignature = (sharing twoDays 86400 (firstDay ++ secondDay)
        ((.ip, "10.0.0.9"), 20455)).map Case.clusterSignature := by decide
  have hsame := htold.apart ((.ip, "10.0.0.9"), 20454) ((.ip, "10.0.0.9"), 20455)
    ⟨by decide, by decide⟩ ⟨by decide, by decide⟩ (by rw [signatureSet, signatureSet, hset])
  exact absurd hsame (by decide)

end AgenticKibana.Campaigns
