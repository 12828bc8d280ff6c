import AgenticKibana.Library.TextLines
import AgenticKibana.Library.Dict

/-!
# Whether a detection set carries promotable precedent

A set of rule ids is written as one text: the ids, stripped, without repetitions, in order and
joined with `|`.  `distribution_from_metadata` counts the confirmed outcomes of the corpus under
each identity text, and `evaluate_precedent_signal` takes a case through the gates.  The signal is
about the rule set of the case as long as no confirmed row that it reads belongs to a twin of that
set.
-/

namespace AgenticKibana.Precedent

open List
open AgenticKibana.Library.TextLines (strip)

/-- `RULE_IDENTITY_SEPARATOR`. -/
def separator : Char := '|'

/-- `normalize_rule_id`, of a rule id that is a text. -/
def normalizeRuleId (value : List Char) : List Char := strip value

def normalisedIds (ruleIds : List (List Char)) : List (List Char) :=
  (ruleIds.map normalizeRuleId).filter fun rid => rid ≠ []

/-- The set comprehension of `rule_identity`: the detection set that the ids describe. -/
def ruleSet (ruleIds : List (List Char)) : Finset (List Char) := (normalisedIds ruleIds).toFinset

def sortedRules (ruleIds : List (List Char)) : List (List Char) :=
  (normalisedIds ruleIds).dedup.insertionSort (· ≤ ·)

def ruleIdentity (ruleIds : List (List Char)) : List Char :=
  List.intercalate [separator] (sortedRules ruleIds)

variable {ruleIds a b : List (List Char)} {rid : List Char}

theorem mem_sortedRules : rid ∈ sortedRules ruleIds ↔ rid ∈ ruleSet ruleIds := by
  simp [sortedRules, ruleSet]

theorem ne_nil_of_mem_sortedRules (h : rid ∈ sortedRules ruleIds) : rid ≠ [] := by
  simp only [sortedRules, mem_insertionSort, mem_dedup] at h
  exact of_decide_eq_true (mem_filter.mp h).2

theorem sortedRules_eq_iff :
    sortedRules a = sortedRules b ↔ ruleSet a = ruleSet b := by
  constructor
  · intro h
    ext rid
    rw [← mem_sortedRules, h, mem_sortedRules]
  · intro h
    have hnodup : ∀ ids : List (List Char), (sortedRules ids).Nodup := fun ids =>
      (perm_insertionSort _ _).nodup_iff.mpr (nodup_dedup _)
    have hperm : (sortedRules a).Perm (sortedRules b) := by
      rw [perm_ext_iff_of_nodup (hnodup a) (hnodup b)]
      intro rid
      rw [mem_sortedRules, mem_sortedRules, h]
    exact hperm.eq_of_pairwise' (pairwise_insertionSort _ _)
      (pairwise_insertionSort _ _)

theorem ruleIdentity_congr (h : ruleSet a = ruleSet b) :
    ruleIdentity a = ruleIdentity b := by
  rw [ruleIdentity, sortedRules_eq_iff.mpr h, ruleIdentity]

theorem ruleIdentity_eq_nil_iff :
    ruleIdentity ruleIds = [] ↔ ruleSet ruleIds = ∅ := by
  have hempty : ruleSet ruleIds = ∅ ↔ sortedRules ruleIds = [] := by
    rw [eq_nil_iff_forall_not_mem, Finset.eq_empty_iff_forall_notMem]
    exact forall_congr' fun rid => not_congr mem_sortedRules.symm
  rw [hempty, ruleIdentity]
  constructor
  · intro h
    cases hs : sortedRules ruleIds with
    | nil => rfl
    | cons rid rest =>
      have hne : rid ≠ [] := ne_nil_of_mem_sortedRules (hs ▸ mem_cons_self ..)
      rw [hs] at h
      cases rest with
      | nil => exact absurd (by simpa using h) hne
      | cons r rs => simp [List.intercalate, List.intersperse] at h
  · intro h
    rw [h]
    rfl

/-- **Two sets that share an identity without being equal.** -/
def Twins (a b : List (List Char)) : Prop :=
  ruleIdentity a = ruleIdentity b ∧ ruleSet a ≠ ruleSet b

instance (a b : List (List Char)) : Decidable (Twins a b) :=
  inferInstanceAs (Decidable (_ ∧ _))

/-- A detection set of two rules always has a twin: the one rule named like the pair. -/
example : Twins ["a".toList, "b".toList] ["a|b".toList] := by decide

open AgenticKibana.Library

/-! ### The corpus -/

/-- The metadata of a chunk, as far as precedent reads it; a key may be missing. -/
structure Metadata where
  trustClass : Option (List Char)
  outcome : Option (List Char)
  ruleIdentity : Option (List Char)

/-- `str(value or default)`. -/
def orDefault (default : List Char) : Option (List Char) → List Char
  | some value => if value = [] then default else value
  | none => default

def promotableTrustClass : List Char := "analyst_confirmed".toList

inductive TrustTier where
  | analystConfirmed
  | modelUnconfirmed
deriving DecidableEq

def TrustTier.text : TrustTier → List Char
  | .analystConfirmed => promotableTrustClass
  | .modelUnconfirmed => "model_unconfirmed".toList

inductive Outcome where
  | falsePositive
  | truePositive
deriving DecidableEq

def Outcome.text : Outcome → List Char
  | .falsePositive => "false_positive".toList
  | .truePositive => "true_positive".toList

/-- A row of the corpus: what it says about the case it was written for. -/
structure PrecedentRow where
  ruleIds : List (List Char)
  outcome : Outcome
  tier : TrustTier

def PrecedentRow.metadata (row : PrecedentRow) : Metadata where
  trustClass := some row.tier.text
  outcome := some row.outcome.text
  ruleIdentity := some (Precedent.ruleIdentity row.ruleIds)

structure RulePrecedentCounts where
  ruleIdentity : List Char
  falsePositive : Nat
  truePositive : Nat

structure PrecedentDistribution where
  available : Bool
  reason : List Char
  truncated : Bool
  disabled : Bool
  scanned : Nat
  unattributed : Nat
  byRule : Dict (List Char) RulePrecedentCounts

def PrecedentDistribution.countsFor (d : PrecedentDistribution) (identity : List Char) :
    Option RulePrecedentCounts :=
  if identity = [] then none else d.byRule.get? identity

structure Tally where
  buckets : Dict (List Char) (Nat × Nat) := Dict.empty
  unattributed : Nat := 0
  seen : Nat := 0

def countRow (t : Tally) (row : Metadata) : Tally :=
  let t := { t with seen := t.seen + 1 }
  if orDefault promotableTrustClass row.trustClass ≠ promotableTrustClass then t
  else
    let outcome := orDefault [] row.outcome
    if outcome ≠ Outcome.falsePositive.text ∧ outcome ≠ Outcome.truePositive.text then t
    else
      let identity := orDefault [] row.ruleIdentity
      if identity = [] then { t with unattributed := t.unattributed + 1 }
      else
        let slot := (t.buckets.get? identity).getD (0, 0)
        if outcome = Outcome.falsePositive.text then
          { t with buckets := t.buckets.set identity (slot.1 + 1, slot.2) }
        else { t with buckets := t.buckets.set identity (slot.1, slot.2 + 1) }

def distributionFromMetadata (rows : List Metadata) (truncated : Bool) (scanned : Option Nat) :
    PrecedentDistribution :=
  let t := rows.foldl countRow {}
  { available := true
    reason := []
    truncated := truncated
    disabled := false
    scanned := scanned.getD t.seen
    unattributed := t.unattributed
    byRule := Dict.ofList (t.buckets.entries.map fun e => (e.1, ⟨e.1, e.2.1, e.2.2⟩)) }

/-- `PrecedentPromotionConfig`, with the bounds of its fields. -/
structure PrecedentPromotionConfig where
  enabled : Bool
  minConfirmed : Nat
  minSimilarity : ℚ
  maxConflicting : Nat
  minConfirmed_mem : 1 ≤ minConfirmed ∧ minConfirmed ≤ 100000
  minSimilarity_mem : 0 ≤ minSimilarity ∧ minSimilarity ≤ 1
  maxConflicting_le : maxConflicting ≤ 1000

/-- `PRECEDENT_STATUSES`. -/
inductive Status where
  | qualified
  | insufficient
  | conflicting
  | notRetrieved
  | unavailable
  | disabled
  | notApplicable
deriving DecidableEq

inductive Reason where
  | turnedOff
  | noIdentity
  /-- What the distribution states, or a general text where that is blank. -/
  | unreadable (stated : List Char)
  | truncatedRead
  | notUnanimous (truePositive : Nat)
  | tooFew (falsePositive minConfirmed : Nat)
  | notRetrieved (minSimilarity : ℚ) (best : Option ℚ)
  | promoted (falsePositive truePositive matching : Nat)

structure PrecedentSignal where
  status : Status
  reason : Reason
  ruleIdentity : List Char
  confirmedFalsePositive : Nat := 0
  confirmedTruePositive : Nat := 0
  retrievedMatching : Nat := 0
  topScore : Option ℚ := none
  minConfirmed : Nat
  minSimilarity : ℚ
  truncated : Bool := false

structure RagChunk where
  score : ℚ
  metadata : Metadata

def chunkMatchesRule (chunk : RagChunk) (identity : List Char) : Bool :=
  if orDefault promotableTrustClass chunk.metadata.trustClass ≠ promotableTrustClass then false
  else if orDefault [] chunk.metadata.outcome ≠ Outcome.falsePositive.text then false
  else orDefault [] chunk.metadata.ruleIdentity = identity

/-- The gates of `evaluate_precedent_signal` that read the counts, from the truncated read on;
`scores` are those of the matching chunks. -/
def weighCounts (identity : List Char) (minConfirmed : Nat) (minSimilarity : ℚ)
    (maxConflicting falsePositive truePositive : Nat) (truncated : Bool) (scores : List ℚ) :
    PrecedentSignal :=
  let base (status : Status) (reason : Reason) : PrecedentSignal :=
    { status, reason, ruleIdentity := identity, minConfirmed, minSimilarity, truncated
      confirmedFalsePositive := falsePositive
      confirmedTruePositive := truePositive }
  if truncated then base .unavailable .truncatedRead
  else if maxConflicting < truePositive then base .conflicting (.notUnanimous truePositive)
  else if falsePositive < minConfirmed then
    base .insufficient (.tooFew falsePositive minConfirmed)
  else
    match scores.max? with
    | none =>
      { base .notRetrieved (.notRetrieved minSimilarity none) with
        retrievedMatching := scores.length }
    | some top =>
      if top < minSimilarity then
        { base .notRetrieved (.notRetrieved minSimilarity (some top)) with
          retrievedMatching := scores.length
          topScore := some top }
      else
        { base .qualified (.promoted falsePositive truePositive scores.length) with
          retrievedMatching := scores.length
          topScore := some top }

def evaluatePrecedentSignal (ruleIds : List (List Char)) (ragChunks : List RagChunk)
    (distribution : Option PrecedentDistribution) (config : PrecedentPromotionConfig) :
    PrecedentSignal :=
  let identity := ruleIdentity ruleIds
  let minConfirmed := max 1 (if config.minConfirmed = 0 then 1 else config.minConfirmed)
  let minSimilarity := config.minSimilarity
  let maxConflicting := max 0 config.maxConflicting
  let base (status : Status) (reason : Reason) : PrecedentSignal :=
    { status, reason, ruleIdentity := identity, minConfirmed, minSimilarity }
  if config.enabled = false then base .disabled .turnedOff
  else if identity = [] then base .notApplicable .noIdentity
  else
    match distribution with
    | none => base .unavailable (.unreadable [])
    | some d =>
      if d.available = false then
        { base .unavailable (.unreadable d.reason) with truncated := d.truncated }
      else
        let counts := (d.countsFor identity).getD ⟨identity, 0, 0⟩
        weighCounts identity minConfirmed minSimilarity maxConflicting counts.falsePositive
          counts.truePositive d.truncated
          ((ragChunks.filter fun chunk => chunkMatchesRule chunk identity).map RagChunk.score)

/-! ### What the counts are -/

def confirmed (o : Outcome) (kind : List (List Char) → Bool) (rows : List PrecedentRow) : Nat :=
  rows.countP fun row => row.tier = .analystConfirmed && row.outcome = o && kind row.ruleIds

def sameIdentity (current ids : List (List Char)) : Bool := ruleIdentity ids = ruleIdentity current

def sameRules (current ids : List (List Char)) : Bool := ruleSet ids = ruleSet current

theorem orDefault_tier (tier : TrustTier) :
    orDefault promotableTrustClass (some tier.text) = tier.text := by
  cases tier <;> decide

theorem orDefault_nil (text : List Char) : orDefault [] (some text) = text := by
  by_cases h : text = []
  · rw [h]
    rfl
  · simp [orDefault, h]

theorem tier_text_eq_iff (tier : TrustTier) :
    tier.text = promotableTrustClass ↔ tier = .analystConfirmed := by
  cases tier <;> decide

theorem outcome_text_eq_iff (o p : Outcome) : o.text = p.text ↔ o = p := by
  cases o <;> cases p <;> decide

variable {identity : List Char}

theorem get?_buckets (rows : List PrecedentRow) (hne : identity ≠ []) :
    (((rows.map PrecedentRow.metadata).foldl countRow {}).buckets.get? identity).getD (0, 0) =
      (confirmed .falsePositive (fun ids => ruleIdentity ids = identity) rows,
        confirmed .truePositive (fun ids => ruleIdentity ids = identity) rows) := by
  induction rows using List.reverseRecOn with
  | nil => rfl
  | append_singleton rows row ih =>
    rw [map_append, foldl_append]
    simp only [confirmed, countP_append, countP_singleton] at ih ⊢
    simp only [map_cons, map_nil, foldl_cons, foldl_nil]
    generalize (rows.map PrecedentRow.metadata).foldl countRow {} = t at ih ⊢
    unfold countRow
    simp only [PrecedentRow.metadata, orDefault_tier, orDefault_nil, ne_eq,
      tier_text_eq_iff, outcome_text_eq_iff]
    by_cases htier : row.tier = .analystConfirmed
    · rw [if_neg (not_not.mpr htier)]
      by_cases hid : ruleIdentity row.ruleIds = identity
      · -- the row is counted under the identity
        cases ho : row.outcome <;>
          simp [htier, hid, hne, ih]
      · have hother : identity ≠ ruleIdentity row.ruleIds := Ne.symm hid
        cases ho : row.outcome <;> by_cases hblank : ruleIdentity row.ruleIds = [] <;>
          simp [hid, hblank, hother, hne, Dict.get?_set_of_ne, ih]
    · rw [if_pos htier]
      simp [htier, ih]

theorem countsFor_distribution (rows : List PrecedentRow) (truncated : Bool)
    (scanned : Option Nat) (hne : identity ≠ []) :
    ((distributionFromMetadata (rows.map PrecedentRow.metadata) truncated scanned).countsFor
        identity).getD ⟨identity, 0, 0⟩ =
      ⟨identity, confirmed .falsePositive (fun ids => ruleIdentity ids = identity) rows,
        confirmed .truePositive (fun ids => ruleIdentity ids = identity) rows⟩ := by
  have hslot := get?_buckets rows hne
  simp only [PrecedentDistribution.countsFor, if_neg hne, distributionFromMetadata]
  generalize ((rows.map PrecedentRow.metadata).foldl countRow {}).buckets = buckets at hslot ⊢
  have hnodup : ((buckets.entries.map fun e =>
      (e.1, (⟨e.1, e.2.1, e.2.2⟩ : RulePrecedentCounts))).map Prod.fst).Nodup := by
    rw [List.map_map]
    exact buckets.nodup
  cases hget : buckets.get? identity with
  | none =>
    have hnone : (Dict.ofList (buckets.entries.map fun e =>
        (e.1, (⟨e.1, e.2.1, e.2.2⟩ : RulePrecedentCounts)))).get? identity = none := by
      rw [Dict.get?_eq_none_iff, Dict.keys, Dict.entries_ofList hnodup, List.map_map]
      exact Dict.get?_eq_none_iff.mp hget
    rw [hnone]
    rw [hget] at hslot
    simp only [Option.getD_none, Prod.mk.injEq] at hslot ⊢
    rw [← hslot.1, ← hslot.2]
  | some slot =>
    have hsome : (Dict.ofList (buckets.entries.map fun e =>
        (e.1, (⟨e.1, e.2.1, e.2.2⟩ : RulePrecedentCounts)))).get? identity =
          some ⟨identity, slot.1, slot.2⟩ := by
      rw [Dict.get?_eq_some_iff, Dict.entries_ofList hnodup]
      exact List.mem_map.mpr ⟨(identity, slot), Dict.get?_eq_some_iff.mp hget, rfl⟩
    rw [hsome]
    rw [hget] at hslot
    simp only [Option.getD_some] at hslot ⊢
    rw [hslot]

/-! ### The exact detection set -/

/-- A retrieved chunk: a row of the precedent corpus, or a chunk of another source, which has
no rule identity. -/
inductive Retrieved where
  | precedent (row : PrecedentRow) (score : ℚ)
  | other (trustClass outcome : Option (List Char)) (score : ℚ)

def Retrieved.chunk : Retrieved → RagChunk
  | .precedent row score => ⟨score, row.metadata⟩
  | .other trustClass outcome score => ⟨score, trustClass, outcome, none⟩

def Retrieved.confirms (kind : List (List Char) → Bool) : Retrieved → Bool
  | .precedent row _ =>
    row.tier = .analystConfirmed && row.outcome = .falsePositive && kind row.ruleIds
  | .other _ _ _ => false

def Retrieved.keep (current : List (List Char)) : Retrieved → Bool
  | .precedent row _ => sameRules current row.ruleIds
  | .other _ _ _ => true

def matchingScores (kind : List (List Char) → Bool) (retrieved : List Retrieved) : List ℚ :=
  (retrieved.filter (Retrieved.confirms kind)).map fun r => r.chunk.score

def signal (rows : List PrecedentRow) (truncated : Bool) (scanned : Option Nat)
    (current : List (List Char)) (retrieved : List Retrieved)
    (config : PrecedentPromotionConfig) : PrecedentSignal :=
  evaluatePrecedentSignal current (retrieved.map Retrieved.chunk)
    (some (distributionFromMetadata (rows.map PrecedentRow.metadata) truncated scanned)) config

structure Earned (rows : List PrecedentRow) (truncated : Bool) (current : List (List Char))
    (retrieved : List Retrieved) (config : PrecedentPromotionConfig) : Prop where
  falsePositives : config.minConfirmed ≤ confirmed .falsePositive (sameRules current) rows
  truePositives : confirmed .truePositive (sameRules current) rows ≤ config.maxConflicting
  complete : truncated = false
  retrieved : ∃ row score, .precedent row score ∈ retrieved ∧ row.tier = .analystConfirmed ∧
    row.outcome = .falsePositive ∧ ruleSet row.ruleIds = ruleSet current ∧
    config.minSimilarity ≤ score

/-- **Promotion is about the exact detection set**: a qualified signal is earned, and the rows
of other rule sets make no difference. -/
structure Exact (rows : List PrecedentRow) (truncated : Bool) (scanned : Option Nat)
    (current : List (List Char)) (retrieved : List Retrieved)
    (config : PrecedentPromotionConfig) : Prop where
  earned : (signal rows truncated scanned current retrieved config).status = .qualified →
    Earned rows truncated current retrieved config
  untouched : signal (rows.filter fun row => sameRules current row.ruleIds) truncated scanned
      current (retrieved.filter (Retrieved.keep current)) config =
    signal rows truncated scanned current retrieved config

/-- Nothing that the signal reads comes from a twin of the current set: promotion is off, or the
set is blank, or no confirmed row of the corpus is of a twin and neither is a retrieved
confirmed false positive, unless a gate before retrieval refuses. -/
def Undisturbed (rows : List PrecedentRow) (truncated : Bool) (current : List (List Char))
    (retrieved : List Retrieved) (config : PrecedentPromotionConfig) : Prop :=
  config.enabled = false ∨ ruleSet current = ∅ ∨
    (∀ row ∈ rows, row.tier = .analystConfirmed → ¬Twins row.ruleIds current) ∧
    ((∀ row score, .precedent row score ∈ retrieved → row.tier = .analystConfirmed →
        row.outcome = .falsePositive → ¬Twins row.ruleIds current) ∨
      truncated = true ∨
      config.maxConflicting < confirmed .truePositive (sameRules current) rows ∨
      confirmed .falsePositive (sameRules current) rows < config.minConfirmed)

section Gates

variable {identity : List Char} {minConfirmed maxConflicting fp tp : Nat} {minSimilarity : ℚ}
  {truncated : Bool} {scores : List ℚ}

theorem weighCounts_counts :
    (weighCounts identity minConfirmed minSimilarity maxConflicting fp tp truncated
        scores).confirmedFalsePositive = fp ∧
      (weighCounts identity minConfirmed minSimilarity maxConflicting fp tp truncated
        scores).confirmedTruePositive = tp := by
  unfold weighCounts
  cases truncated with
  | true => exact ⟨rfl, rfl⟩
  | false =>
    by_cases htp : maxConflicting < tp
    · simp [htp]
    · by_cases hfp : fp < minConfirmed
      · simp [htp, hfp]
      · cases hmax : scores.max? with
        | none => simp [htp, hfp]
        | some top => by_cases htop : top < minSimilarity <;> simp [htp, hfp, htop]

theorem weighCounts_refused
    (h : truncated = true ∨ maxConflicting < tp ∨ fp < minConfirmed) (scores' : List ℚ) :
    weighCounts identity minConfirmed minSimilarity maxConflicting fp tp truncated scores =
        weighCounts identity minConfirmed minSimilarity maxConflicting fp tp truncated scores' ∧
      (weighCounts identity minConfirmed minSimilarity maxConflicting fp tp truncated
        scores).status ≠ .qualified := by
  unfold weighCounts
  cases truncated with
  | true => simp
  | false =>
    by_cases htp : maxConflicting < tp
    · simp [htp]
    · have hfp : fp < minConfirmed := by
        rcases h with h | h | h
        · cases h
        · exact absurd h htp
        · exact h
      simp [htp, hfp]

theorem weighCounts_matching (htrunc : truncated = false) (htp : tp ≤ maxConflicting)
    (hfp : minConfirmed ≤ fp) :
    (weighCounts identity minConfirmed minSimilarity maxConflicting fp tp truncated
      scores).retrievedMatching = scores.length := by
  unfold weighCounts
  rw [htrunc]
  simp only [Bool.false_eq_true, if_false, Nat.not_lt.mpr htp, Nat.not_lt.mpr hfp]
  cases hmax : scores.max? with
  | none => rfl
  | some top => by_cases htop : top < minSimilarity <;> simp [htop]

theorem weighCounts_qualified
    (h : (weighCounts identity minConfirmed minSimilarity maxConflicting fp tp truncated
      scores).status = .qualified) :
    (truncated = false ∧ tp ≤ maxConflicting ∧ minConfirmed ≤ fp) ∧
      ∃ top ∈ scores, minSimilarity ≤ top := by
  have hpassed : ¬(truncated = true ∨ maxConflicting < tp ∨ fp < minConfirmed) := fun hno =>
    (weighCounts_refused hno scores).2 h
  simp only [not_or, Bool.not_eq_true, Nat.not_lt] at hpassed
  refine ⟨hpassed, ?_⟩
  obtain ⟨htrunc, htp, hfp⟩ := hpassed
  simp only [weighCounts, htrunc, Bool.false_eq_true, if_false, Nat.not_lt.mpr htp,
    Nat.not_lt.mpr hfp] at h
  cases hmax : scores.max? with
  | none =>
    rw [hmax] at h
    cases h
  | some top =>
    rw [hmax] at h
    by_cases htop : top < minSimilarity
    · simp [htop] at h
    · exact ⟨top, max?_mem hmax, not_lt.mp htop⟩

end Gates

/-! ### Counting by text and by set -/

section Counting

variable {current ids : List (List Char)}

theorem sameIdentity_of_sameRules (h : sameRules current ids = true) :
    sameIdentity current ids = true :=
  decide_eq_true (ruleIdentity_congr (of_decide_eq_true h))

theorem sameRules_of_not_twins (h : ¬Twins ids current) :
    sameIdentity current ids = sameRules current ids := by
  cases hrules : sameRules current ids with
  | true => exact sameIdentity_of_sameRules hrules
  | false =>
    apply decide_eq_false
    exact fun hsame => h ⟨hsame, of_decide_eq_false hrules⟩

theorem countP_lt_of_mem {α : Type*} {p q : α → Bool} {l : List α}
    (himp : ∀ x ∈ l, p x = true → q x = true) {x : α} (hx : x ∈ l) (hp : p x = false)
    (hq : q x = true) : l.countP p < l.countP q := by
  induction l with
  | nil => cases hx
  | cons y ys ih =>
    have hle : ys.countP p ≤ ys.countP q :=
      countP_mono_left fun z hz => himp z (mem_cons_of_mem y hz)
    rw [countP_cons, countP_cons]
    rcases mem_cons.mp hx with rfl | htail
    · simp only [hp, hq, Bool.false_eq_true, if_false, if_true]
      omega
    · have hlt := ih (fun z hz => himp z (mem_cons_of_mem y hz)) htail
      by_cases hpy : p y = true
      · simp only [hpy, himp y (mem_cons_self ..) hpy, if_true]
        omega
      · rw [if_neg hpy]
        omega

theorem confirmed_filter (o : Outcome) (rows : List PrecedentRow) :
    confirmed o (sameIdentity current) (rows.filter fun row => sameRules current row.ruleIds) =
      confirmed o (sameRules current) rows := by
  rw [confirmed, confirmed, countP_filter]
  apply countP_congr
  intro row _
  cases hrules : sameRules current row.ruleIds with
  | true => simp [sameIdentity_of_sameRules hrules]
  | false => simp

variable {rows : List PrecedentRow}

theorem confirmed_of_not_twins (o : Outcome)
    (h : ∀ row ∈ rows, row.tier = .analystConfirmed → ¬Twins row.ruleIds current) :
    confirmed o (sameIdentity current) rows = confirmed o (sameRules current) rows := by
  apply countP_congr
  intro row hrow
  by_cases htier : row.tier = .analystConfirmed
  · rw [sameRules_of_not_twins (h row hrow htier)]
  · simp [htier]

variable {row : PrecedentRow}

theorem confirmed_lt_of_twins (hrow : row ∈ rows) (htier : row.tier = .analystConfirmed)
    (htwins : Twins row.ruleIds current) : confirmed row.outcome (sameRules current) rows <
      confirmed row.outcome (sameIdentity current) rows := by
  refine countP_lt_of_mem (fun r _ hr => ?_) hrow ?_ ?_
  · simp only [Bool.and_eq_true] at hr ⊢
    exact ⟨hr.1, sameIdentity_of_sameRules hr.2⟩
  · simp [sameRules, htwins.2]
  · simp [sameIdentity, htier, htwins.1]

theorem scores_matching (retrieved : List Retrieved) (hne : ruleIdentity current ≠ []) :
    ((retrieved.map Retrieved.chunk).filter
        fun chunk => chunkMatchesRule chunk (ruleIdentity current)).map RagChunk.score =
      matchingScores (sameIdentity current) retrieved := by
  rw [List.filter_map, List.map_map, matchingScores]
  refine congrArg (List.map _) (filter_congr fun r _ => ?_)
  cases r with
  | precedent row score =>
    simp only [Function.comp, chunkMatchesRule, Retrieved.chunk, PrecedentRow.metadata,
      orDefault_tier, orDefault_nil, ne_eq, tier_text_eq_iff, outcome_text_eq_iff,
      Retrieved.confirms, sameIdentity]
    by_cases htier : row.tier = .analystConfirmed <;>
      by_cases ho : row.outcome = .falsePositive <;> simp [htier, ho]
  | other trustClass outcome score =>
    simp only [Function.comp, chunkMatchesRule, Retrieved.chunk, Retrieved.confirms, orDefault]
    simp [Ne.symm hne]

theorem matchingScores_filter (retrieved : List Retrieved) :
    matchingScores (sameIdentity current) (retrieved.filter (Retrieved.keep current)) =
      matchingScores (sameRules current) retrieved := by
  rw [matchingScores, matchingScores, List.filter_filter]
  refine congrArg (List.map _) (filter_congr fun r _ => ?_)
  cases r with
  | precedent row score =>
    simp only [Retrieved.confirms, Retrieved.keep]
    cases hrules : sameRules current row.ruleIds with
    | true => simp [sameIdentity_of_sameRules hrules]
    | false => simp
  | other trustClass outcome score => rfl

variable {retrieved : List Retrieved}

theorem matchingScores_of_not_twins
    (h : ∀ row score, .precedent row score ∈ retrieved → row.tier = .analystConfirmed →
      row.outcome = .falsePositive → ¬Twins row.ruleIds current) :
    matchingScores (sameIdentity current) retrieved =
      matchingScores (sameRules current) retrieved := by
  refine congrArg (List.map _) (filter_congr fun r hr => ?_)
  cases r with
  | precedent row score =>
    simp only [Retrieved.confirms]
    by_cases htier : row.tier = .analystConfirmed
    · by_cases ho : row.outcome = .falsePositive
      · rw [sameRules_of_not_twins (h row score hr htier ho)]
      · simp [ho]
    · simp [htier]
  | other trustClass outcome score => rfl

theorem matchingScores_lt_of_twins {score : ℚ} (hmem : .precedent row score ∈ retrieved)
    (htier : row.tier = .analystConfirmed) (ho : row.outcome = .falsePositive)
    (htwins : Twins row.ruleIds current) : (matchingScores (sameRules current) retrieved).length <
      (matchingScores (sameIdentity current) retrieved).length := by
  rw [matchingScores, matchingScores, length_map, length_map,
    ← countP_eq_length_filter, ← countP_eq_length_filter]
  refine countP_lt_of_mem (fun r _ hr => ?_) hmem ?_ ?_
  · cases r with
    | precedent row' score' =>
      simp only [Retrieved.confirms, Bool.and_eq_true] at hr ⊢
      exact ⟨hr.1, sameIdentity_of_sameRules hr.2⟩
    | other trustClass outcome score' => exact hr
  · simp [Retrieved.confirms, sameRules, htwins.2]
  · simp [Retrieved.confirms, sameIdentity, htier, ho, htwins.1]

end Counting

section Signal

variable {rows : List PrecedentRow} {truncated : Bool} {scanned : Option Nat}
  {current : List (List Char)} {retrieved : List Retrieved} {config : PrecedentPromotionConfig}

theorem signal_eq (henabled : config.enabled = true) (hset : ruleSet current ≠ ∅)
    (rows : List PrecedentRow) (retrieved : List Retrieved) :
    signal rows truncated scanned current retrieved config =
      weighCounts (ruleIdentity current) config.minConfirmed config.minSimilarity
        config.maxConflicting (confirmed .falsePositive (sameIdentity current) rows)
        (confirmed .truePositive (sameIdentity current) rows) truncated
        (matchingScores (sameIdentity current) retrieved) := by
  have hne : ruleIdentity current ≠ [] := fun h => hset (ruleIdentity_eq_nil_iff.mp h)
  have hbar : max 1 (if config.minConfirmed = 0 then 1 else config.minConfirmed) =
      config.minConfirmed := by
    have hle := config.minConfirmed_mem.1
    rw [if_neg (by omega)]
    exact max_eq_right hle
  have havailable : (distributionFromMetadata (rows.map PrecedentRow.metadata) truncated
      scanned).available = true := rfl
  have htruncated : (distributionFromMetadata (rows.map PrecedentRow.metadata) truncated
      scanned).truncated = truncated := rfl
  unfold signal evaluatePrecedentSignal
  simp only [henabled, hne, hbar, havailable, htruncated, countsFor_distribution _ _ _ hne,
    scores_matching _ hne, Bool.true_eq_false, if_false, Nat.zero_max]
  rfl

theorem exact_of_stopped (h : config.enabled = false ∨ ruleSet current = ∅) :
    Exact rows truncated scanned current retrieved config := by
  have hstop : ∀ rows' retrieved', (signal rows' truncated scanned current retrieved' config) =
        signal rows truncated scanned current retrieved config ∧
      (signal rows' truncated scanned current retrieved' config).status ≠ .qualified := by
    intro rows' retrieved'
    unfold signal evaluatePrecedentSignal
    by_cases henabled : config.enabled = false
    · simp [henabled]
    · have hblank : ruleIdentity current = [] :=
        ruleIdentity_eq_nil_iff.mpr (h.resolve_left henabled)
      simp [henabled, hblank]
  constructor
  · exact fun hq => absurd hq (hstop _ _).2
  · exact (hstop _ _).1

/-- **Promotion is about the exact detection set exactly when it is undisturbed by twins.** -/
theorem promotion_exact_iff (rows : List PrecedentRow) (truncated : Bool) (scanned : Option Nat)
    (current : List (List Char)) (retrieved : List Retrieved)
    (config : PrecedentPromotionConfig) :
    Exact rows truncated scanned current retrieved config ↔
      Undisturbed rows truncated current retrieved config := by
  by_cases henabled : config.enabled = false
  · exact iff_of_true (exact_of_stopped (Or.inl henabled)) (Or.inl henabled)
  by_cases hset : ruleSet current = ∅
  · exact iff_of_true (exact_of_stopped (Or.inr hset)) (Or.inr (Or.inl hset))
  have hon : config.enabled = true := by simpa using henabled
  have hsignal := @signal_eq truncated scanned current config hon hset
  constructor
  · intro hexact
    have huntouched := hexact.untouched
    rw [hsignal, hsignal, confirmed_filter, confirmed_filter, matchingScores_filter] at huntouched
    have hfp : confirmed .falsePositive (sameRules current) rows =
        confirmed .falsePositive (sameIdentity current) rows := by
      have h := congrArg PrecedentSignal.confirmedFalsePositive huntouched
      rwa [weighCounts_counts.1, weighCounts_counts.1] at h
    have htp : confirmed .truePositive (sameRules current) rows =
        confirmed .truePositive (sameIdentity current) rows := by
      have h := congrArg PrecedentSignal.confirmedTruePositive huntouched
      rwa [weighCounts_counts.2, weighCounts_counts.2] at h
    refine Or.inr (Or.inr ⟨fun row hrow htier htwins => ?_, ?_⟩)
    · have hlt := confirmed_lt_of_twins hrow htier htwins
      cases ho : row.outcome with
      | falsePositive => rw [ho, hfp] at hlt; exact lt_irrefl _ hlt
      | truePositive => rw [ho, htp] at hlt; exact lt_irrefl _ hlt
    · by_contra hno
      simp only [not_or, not_forall, Bool.not_eq_true, Nat.not_lt] at hno
      obtain ⟨⟨row, score, hmem, htier, ho, htwins⟩, htrunc, hmax, hmin⟩ := hno
      have hlt := matchingScores_lt_of_twins hmem htier ho (not_not.mp htwins)
      have h := congrArg PrecedentSignal.retrievedMatching huntouched
      rw [weighCounts_matching htrunc hmax hmin,
        weighCounts_matching htrunc (htp ▸ hmax) (hfp ▸ hmin)] at h
      omega
  · intro hundisturbed
    obtain ⟨hrows, hchunks⟩ := (hundisturbed.resolve_left henabled).resolve_left hset
    have hcount := fun o => confirmed_of_not_twins o hrows
    constructor
    · intro hq
      rw [hsignal, hcount, hcount] at hq
      obtain ⟨⟨htrunc, htp, hfp⟩, top, htop, hsim⟩ := weighCounts_qualified hq
      refine ⟨hfp, htp, htrunc, ?_⟩
      have hnochunk := hchunks.resolve_right (by
        simp only [not_or, Bool.not_eq_true, Nat.not_lt]
        exact ⟨htrunc, htp, hfp⟩)
      rw [matchingScores_of_not_twins hnochunk] at htop
      obtain ⟨r, hr, rfl⟩ := List.mem_map.mp htop
      obtain ⟨hmem, hconfirms⟩ := List.mem_filter.mp hr
      cases r with
      | precedent row score =>
        simp only [Retrieved.confirms, Bool.and_eq_true, decide_eq_true_eq] at hconfirms
        exact ⟨row, score, hmem, hconfirms.1.1, hconfirms.1.2, of_decide_eq_true hconfirms.2,
          hsim⟩
      | other trustClass outcome score => cases hconfirms
    · rw [hsignal, hsignal, confirmed_filter, confirmed_filter, matchingScores_filter, hcount,
        hcount]
      rcases hchunks with hnochunk | hrefused
      · rw [matchingScores_of_not_twins hnochunk]
      · exact (weighCounts_refused hrefused _).1

end Signal

def oneRowConfig : PrecedentPromotionConfig where
  enabled := true
  minConfirmed := 1
  minSimilarity := 1
  maxConflicting := 0
  minConfirmed_mem := by decide
  minSimilarity_mem := by norm_num
  maxConflicting_le := by decide

/-- A case of the rules `a` and `b` is told that its set is benign on the strength of one row
about the other rule `a|b`. -/
theorem promoted_by_twin :
    (signal [⟨["a|b".toList], .falsePositive, .analystConfirmed⟩] false none
        ["a".toList, "b".toList]
        [.precedent ⟨["a|b".toList], .falsePositive, .analystConfirmed⟩ 1]
        oneRowConfig).status = .qualified ∧
      ¬Exact [⟨["a|b".toList], .falsePositive, .analystConfirmed⟩] false none
        ["a".toList, "b".toList]
        [.precedent ⟨["a|b".toList], .falsePositive, .analystConfirmed⟩ 1] oneRowConfig := by
  have hqualified : (signal [⟨["a|b".toList], .falsePositive, .analystConfirmed⟩] false none
      ["a".toList, "b".toList]
      [.precedent ⟨["a|b".toList], .falsePositive, .analystConfirmed⟩ 1]
      oneRowConfig).status = .qualified := by decide
  refine ⟨hqualified, fun hexact => ?_⟩
  have hnone := (hexact.earned hqualified).falsePositives
  exact absurd hnone (by decide)

end AgenticKibana.Precedent
