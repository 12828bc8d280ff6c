import AgenticKibana.Library.Dict

/-!
# Grouping a list, and keeping the best under a key

Two loops over a list that fill a dictionary: one collects the elements under each key, the
other keeps for each key the first value of the highest score.
-/

namespace AgenticKibana.Library

open List

namespace Dict

variable {α β κ : Type*} [DecidableEq κ]

def groupBy (f : α → Option κ) (l : List α) : Dict κ (List α) :=
  l.foldl (fun d x => match f x with
    | some k => d.set k ((d.get? k).getD [] ++ [x])
    | none => d) empty

theorem groupBy_snoc (f : α → Option κ) (l : List α) (x : α) :
    groupBy f (l ++ [x]) = match f x with
      | some k => (groupBy f l).set k (((groupBy f l).get? k).getD [] ++ [x])
      | none => groupBy f l :=
  foldl_concat _ _ _ _

theorem get?_groupBy (f : α → Option κ) (l : List α) (k : κ) :
    (groupBy f l).get? k = if (l.filter fun x => f x = some k) = [] then none
      else some (l.filter fun x => f x = some k) := by
  induction l using List.reverseRecOn with
  | nil => rfl
  | append_singleton l x ih =>
    rw [groupBy_snoc, filter_append]
    cases hx : f x with
    | none =>
      dsimp only
      rw [ih, filter_cons_of_neg (by simp [hx]), filter_nil, append_nil]
    | some k' =>
      dsimp only
      rw [get?_set]
      by_cases hk : k = k'
      · subst hk
        rw [if_pos rfl, ih, filter_cons_of_pos (by simp [hx]), filter_nil]
        generalize (l.filter fun x => f x = some k) = group
        rw [@if_neg (group ++ [x] = []) _ (by simp)]
        by_cases hnil : group = []
        · rw [if_pos hnil, hnil]
          rfl
        · rw [if_neg hnil]
          rfl
      · have hne : f x ≠ some k := by
          rw [hx]
          exact fun h => hk (Option.some.inj h).symm
        rw [if_neg hk, ih, filter_cons_of_neg (by simpa using hne), filter_nil,
          append_nil]

theorem mem_groupBy {f : α → Option κ} {l : List α} {k : κ} {group : List α} :
    (k, group) ∈ (groupBy f l).entries ↔
      group = (l.filter fun x => f x = some k) ∧ group ≠ [] := by
  rw [← get?_eq_some_iff, get?_groupBy]
  split
  · rename_i hnil
    constructor
    · intro h
      cases h
    · rintro ⟨rfl, hne⟩
      exact absurd hnil hne
  · rename_i hne
    constructor
    · intro h
      cases h
      exact ⟨rfl, hne⟩
    · rintro ⟨rfl, -⟩
      rfl

theorem getD_groupBy (f : α → Option κ) (l : List α) (k : κ) :
    ((groupBy f l).get? k).getD [] = l.filter fun x => f x = some k := by
  rw [get?_groupBy]
  split
  · rename_i hnil
    exact hnil.symm
  · rfl

theorem mem_keys_groupBy {f : α → Option κ} {l : List α} {k : κ} :
    k ∈ (groupBy f l).keys ↔ ∃ x ∈ l, f x = some k := by
  have hkey : k ∈ (groupBy f l).keys ↔ (groupBy f l).get? k ≠ none := by
    rw [Ne, get?_eq_none_iff, not_not]
  rw [hkey, get?_groupBy]
  constructor
  · intro hne
    by_contra hno
    refine hne (if_pos (filter_eq_nil_iff.mpr fun x hx hfx => hno ⟨x, hx, ?_⟩))
    exact of_decide_eq_true hfx
  · rintro ⟨x, hx, hfx⟩
    rw [if_neg (ne_nil_of_mem (mem_filter.mpr ⟨hx, decide_eq_true hfx⟩))]
    exact Option.some_ne_none _

/-! ### The best under a key -/

def keepBest (score : β → Nat) (d : Dict κ β) (e : κ × β) : Dict κ β :=
  match d.get? e.1 with
  | some v => if score v < score e.2 then d.set e.1 e.2 else d
  | none => d.set e.1 e.2

structure Best (score : β → Nat) (candidates : List (κ × β)) (k : κ) (v : β) : Prop where
  mem : (k, v) ∈ candidates
  le : ∀ w, (k, w) ∈ candidates → score w ≤ score v

omit [DecidableEq κ] in
theorem Best.snoc {score : β → Nat} {candidates : List (κ × β)} {k : κ} {v : β} {e : κ × β}
    (h : Best score candidates k v) (he : e.1 = k → score e.2 ≤ score v) :
    Best score (candidates ++ [e]) k v where
  mem := mem_append_left _ h.mem
  le w hw := by
    rcases mem_append.mp hw with hw | hw
    · exact h.le w hw
    · cases mem_singleton.mp hw
      exact he rfl

theorem keepBest_get (score : β → Nat) (d : Dict κ β) (e : κ × β) (k : κ) :
    (keepBest score d e).get? k =
      if k = e.1 then
        match d.get? k with
        | some v => if score v < score e.2 then some e.2 else some v
        | none => some e.2
      else d.get? k := by
  unfold keepBest
  by_cases hk : k = e.1
  · subst hk
    rw [if_pos rfl]
    cases hv : d.get? e.1 with
    | none => exact get?_set_self _ _ _
    | some v =>
      dsimp only
      by_cases hlt : score v < score e.2
      · rw [if_pos hlt, if_pos hlt]
        exact get?_set_self _ _ _
      · rw [if_neg hlt, if_neg hlt]
        exact hv
  · rw [if_neg hk]
    split
    · split
      · exact get?_set_of_ne _ _ hk
      · rfl
    · exact get?_set_of_ne _ _ hk

/-- **Keeping the best** keeps one of the highest score for each key that has a candidate. -/
theorem keepBest_spec (score : β → Nat) (candidates : List (κ × β)) (k : κ) :
    (∃ v, (candidates.foldl (keepBest score) empty).get? k = some v ∧
      Best score candidates k v) ∨
    (candidates.foldl (keepBest score) empty).get? k = none ∧ ∀ v, (k, v) ∉ candidates := by
  induction candidates using List.reverseRecOn with
  | nil => exact .inr ⟨rfl, fun v => not_mem_nil⟩
  | append_singleton candidates e ih =>
    rw [foldl_concat]
    by_cases hk : k = e.1
    · subst hk
      have hlast : (e.1, e.2) ∈ candidates ++ [e] :=
        mem_append_right _ (mem_singleton_self e)
      left
      rcases ih with ⟨v, hv, hbest⟩ | ⟨hnone, hno⟩
      · by_cases hlt : score v < score e.2
        · refine ⟨e.2, by rw [keepBest_get, if_pos rfl, hv]; exact if_pos hlt, hlast, ?_⟩
          intro w hw
          rcases mem_append.mp hw with hw | hw
          · exact (hbest.le w hw).trans hlt.le
          · rw [← mem_singleton.mp hw]
        · refine ⟨v, by rw [keepBest_get, if_pos rfl, hv]; exact if_neg hlt, ?_⟩
          exact hbest.snoc fun _ => not_lt.mp hlt
      · refine ⟨e.2, by rw [keepBest_get, if_pos rfl, hnone], hlast, ?_⟩
        intro w hw
        rcases mem_append.mp hw with hw | hw
        · exact absurd hw (hno w)
        · rw [← mem_singleton.mp hw]
    · have hget : (keepBest score (candidates.foldl (keepBest score) empty) e).get? k =
          (candidates.foldl (keepBest score) empty).get? k := by
        rw [keepBest_get, if_neg hk]
      rcases ih with ⟨v, hv, hbest⟩ | ⟨hnone, hno⟩
      · exact .inl ⟨v, hget.trans hv, hbest.snoc fun he => absurd he.symm hk⟩
      · refine .inr ⟨hget.trans hnone, fun v hv => ?_⟩
        rcases mem_append.mp hv with hv | hv
        · exact hno v hv
        · rw [← mem_singleton.mp hv] at hk
          exact hk rfl

theorem keepBest_isSome {score : β → Nat} {candidates : List (κ × β)} {k : κ} :
    ((candidates.foldl (keepBest score) empty).get? k).isSome = true ↔
      ∃ v, (k, v) ∈ candidates := by
  rcases keepBest_spec score candidates k with ⟨v, hv, hbest⟩ | ⟨hnone, hno⟩
  · rw [hv]
    exact ⟨fun _ => ⟨v, hbest.mem⟩, fun _ => rfl⟩
  · rw [hnone]
    constructor
    · intro h
      cases h
    · rintro ⟨v, hv⟩
      exact absurd hv (hno v)

theorem best_of_get {score : β → Nat} {candidates : List (κ × β)} {k : κ} {v : β}
    (h : (candidates.foldl (keepBest score) empty).get? k = some v) :
    Best score candidates k v := by
  rcases keepBest_spec score candidates k with ⟨w, hw, hbest⟩ | ⟨hnone, -⟩
  · rw [hw, Option.some.injEq] at h
    rw [← h]
    exact hbest
  · rw [hnone] at h
    cases h

end Dict

section Sorting

variable {α : Type*} {le : α → α → Bool} {l1 l2 : List α}

theorem mergeSort_congr (htrans : ∀ a b c, le a b = true → le b c = true → le a c = true)
    (htotal : ∀ a b, (le a b || le b a) = true)
    (hantisymm : ∀ a b, le a b = true → le b a = true → a = b) (h : l1.Perm l2) :
    l1.mergeSort le = l2.mergeSort le := by
  refine List.Perm.eq_of_pairwise (fun a b _ _ => hantisymm a b)
    (pairwise_mergeSort htrans htotal l1) (pairwise_mergeSort htrans htotal l2) ?_
  exact (mergeSort_perm l1 le).trans (h.trans (mergeSort_perm l2 le).symm)

section Rank

variable {β : Type*} [LinearOrder β] {f : α → β}

theorem rank_trans (a b c : α) (hab : decide (f a ≤ f b) = true)
    (hbc : decide (f b ≤ f c) = true) : decide (f a ≤ f c) = true :=
  decide_eq_true ((of_decide_eq_true hab).trans (of_decide_eq_true hbc))

theorem rank_total (a b : α) : (decide (f a ≤ f b) || decide (f b ≤ f a)) = true := by
  rw [Bool.or_eq_true, decide_eq_true_eq, decide_eq_true_eq]
  exact le_total _ _

theorem rank_antisymm (hf : Function.Injective f) (a b : α) (hab : decide (f a ≤ f b) = true)
    (hba : decide (f b ≤ f a) = true) : a = b :=
  hf (le_antisymm (of_decide_eq_true hab) (of_decide_eq_true hba))

end Rank

theorem mergeSort_le_congr {α : Type*} [LinearOrder α] {l1 l2 : List α} (h : l1.Perm l2) :
    l1.mergeSort (fun a b => decide (a ≤ b)) = l2.mergeSort (fun a b => decide (a ≤ b)) :=
  mergeSort_congr (rank_trans (f := id)) rank_total (rank_antisymm Function.injective_id) h

theorem map_fst_mergeSort {κ β : Type*} [DecidableEq κ] {le : κ → κ → Bool} (d : Dict κ β)
    (htrans : ∀ a b c, le a b = true → le b c = true → le a c = true)
    (htotal : ∀ a b, (le a b || le b a) = true)
    (hantisymm : ∀ a b, le a b = true → le b a = true → a = b) :
    (d.entries.mergeSort fun a b => le a.1 b.1).map Prod.fst = d.keys.mergeSort le := by
  have hperm : ((d.entries.mergeSort fun a b => le a.1 b.1).map Prod.fst).Perm d.keys :=
    (mergeSort_perm _ _).map Prod.fst
  refine List.Perm.eq_of_pairwise (fun a b _ _ => hantisymm a b) ?_
    (pairwise_mergeSort htrans htotal _) (hperm.trans (mergeSort_perm _ _).symm)
  refine pairwise_map.mpr (pairwise_mergeSort ?_ ?_ d.entries)
  · exact fun a b c => htrans a.1 b.1 c.1
  · exact fun a b => htotal a.1 b.1

theorem min?_congr {α : Type*} [LinearOrder α] {l1 l2 : List α} (h : l1.Perm l2) :
    l1.min? = l2.min? := by
  refine Option.ext fun a => ?_
  rw [min?_eq_some_iff, min?_eq_some_iff, h.mem_iff]
  simp only [h.mem_iff]

theorem max?_congr {α : Type*} [LinearOrder α] {l1 l2 : List α} (h : l1.Perm l2) :
    l1.max? = l2.max? := by
  refine Option.ext fun a => ?_
  rw [max?_eq_some_iff, max?_eq_some_iff, h.mem_iff]
  simp only [h.mem_iff]

end Sorting

end AgenticKibana.Library
