import Mathlib

/-!
# Insertion-ordered dictionaries

A dictionary in the sense of the scripting languages: an assignment to a present
key keeps its position, a new key goes to the end, and iteration follows the
order.  The entries carry the proof that no key occurs twice, so a lookup *is*
membership (`get?_eq_some_iff`), and every other lookup lemma is read off it.
-/

namespace AgenticKibana.Library

open List

universe u v w

/-- A dictionary: entries in iteration order, no key twice. -/
structure Dict (α : Type u) (β : Type v) where
  entries : List (α × β)
  nodup : (entries.map Prod.fst).Nodup

namespace Dict

variable {α : Type u} {β : Type v} {γ : Type w} [DecidableEq α]

instance [DecidableEq β] : DecidableEq (Dict α β) := fun d e =>
  decidable_of_iff (d.entries = e.entries) (by cases d; cases e; simp)

variable {d : Dict α β} {es : List (α × β)} {k : α} {v : β}

omit [DecidableEq α] in
@[ext] theorem ext {e : Dict α β} (h : d.entries = e.entries) : d = e := by
  cases d; cases e; simp_all

/-! ### Operations -/

def empty : Dict α β := ⟨[], by simp⟩

instance : Inhabited (Dict α β) := ⟨empty⟩

def keys (d : Dict α β) : List α := d.entries.map Prod.fst

def values (d : Dict α β) : List β := d.entries.map Prod.snd

def size (d : Dict α β) : Nat := d.entries.length

def lookup (k : α) : List (α × β) → Option β
  | [] => none
  | (k', v) :: es => if k' = k then some v else lookup k es

def assign (k : α) (v : β) : List (α × β) → List (α × β)
  | [] => [(k, v)]
  | (k', v') :: es => if k' = k then (k, v) :: es else (k', v') :: assign k v es

def get? (d : Dict α β) (k : α) : Option β := lookup k d.entries

def contains (d : Dict α β) (k : α) : Bool := (d.get? k).isSome

theorem keys_assign (k : α) (v : β) (es : List (α × β)) :
    (assign k v es).map Prod.fst =
      if k ∈ es.map Prod.fst then es.map Prod.fst else es.map Prod.fst ++ [k] := by
  induction es with
  | nil => simp [assign]
  | cons e es ih =>
    obtain ⟨k', v'⟩ := e
    by_cases hk : k' = k
    · simp [assign, hk]
    · have hk' : ¬ k = k' := fun h => hk h.symm
      simp only [assign, hk, if_false, map_cons, ih, mem_cons, hk', false_or]
      split <;> simp

/-- `d[k] = v`. -/
def set (d : Dict α β) (k : α) (v : β) : Dict α β where
  entries := assign k v d.entries
  nodup := by
    rw [keys_assign]
    by_cases hk : k ∈ d.entries.map Prod.fst
    · rw [if_pos hk]
      exact d.nodup
    · rw [if_neg hk]
      exact (nodup_append_comm.mp
        (nodup_cons.mpr ⟨hk, d.nodup⟩ : ([k] ++ d.entries.map Prod.fst).Nodup))

/-- Keep the entries that satisfy `p`. -/
def filter (p : α → β → Bool) (d : Dict α β) : Dict α β where
  entries := d.entries.filter fun e => p e.1 e.2
  nodup := d.nodup.sublist (filter_sublist.map Prod.fst)

/-- `d.pop(k, None)`. -/
def erase (d : Dict α β) (k : α) : Dict α β := d.filter fun k' _ => k' ≠ k

def mapValues (f : α → β → γ) (d : Dict α β) : Dict α γ where
  entries := d.entries.map fun e => (e.1, f e.1 e.2)
  nodup := by
    have h : (d.entries.map fun e => (e.1, f e.1 e.2)).map Prod.fst
        = d.entries.map Prod.fst := by simp [Function.comp_def]
    rw [h]
    exact d.nodup

/-- `d.setdefault(k, v)`, its result dropped. -/
def setDefault (d : Dict α β) (k : α) (v : β) : Dict α β :=
  if d.contains k then d else d.set k v

def ofList (es : List (α × β)) : Dict α β := es.foldl (fun d e => d.set e.1 e.2) empty

omit [DecidableEq α] in
@[simp] theorem keys_empty : (empty : Dict α β).keys = [] := rfl

@[simp] theorem get?_empty (k : α) : (empty : Dict α β).get? k = none := rfl

theorem lookup_eq_some_iff (hnd : (es.map Prod.fst).Nodup) :
    lookup k es = some v ↔ (k, v) ∈ es := by
  induction es with
  | nil => simp [lookup]
  | cons e es ih =>
    obtain ⟨k', v'⟩ := e
    obtain ⟨hk', hes⟩ := nodup_cons.mp (map_cons ▸ hnd)
    by_cases hk : k' = k
    · subst hk
      have hnot : (k', v) ∉ es := fun hmem => hk' (mem_map.mpr ⟨_, hmem, rfl⟩)
      simp [lookup, hnot, eq_comm]
    · have hne : ¬ k = k' := fun h => hk h.symm
      simp [lookup, hk, hne, ih hes]

/-- **A lookup is membership**: the other lookup lemmas are read off this one. -/
theorem get?_eq_some_iff {d : Dict α β} {k : α} {v : β} :
    d.get? k = some v ↔ (k, v) ∈ d.entries :=
  lookup_eq_some_iff d.nodup

theorem get?_eq_none_iff {d : Dict α β} {k : α} : d.get? k = none ↔ k ∉ d.keys := by
  rw [Option.eq_none_iff_forall_ne_some]
  simp only [ne_eq, get?_eq_some_iff, keys, mem_map, Prod.exists, exists_and_right,
    exists_eq_right, not_exists]

theorem contains_iff : d.contains k = true ↔ ∃ v, d.get? k = some v := by
  simp [contains, Option.isSome_iff_exists]

theorem mem_values_iff : v ∈ d.values ↔ ∃ k, d.get? k = some v := by
  simp [values, get?_eq_some_iff]

/-! ### Lookup after each operation -/

theorem lookup_assign (k k' : α) (v : β) (es : List (α × β)) :
    lookup k' (assign k v es) = if k' = k then some v else lookup k' es := by
  induction es with
  | nil =>
    by_cases hk : k' = k
    · simp [assign, lookup, hk]
    · have hne : ¬ k = k' := fun h => hk h.symm
      simp [assign, lookup, hk, hne]
  | cons e es ih =>
    obtain ⟨k0, v0⟩ := e
    by_cases h0 : k0 = k
    · subst h0
      by_cases hk : k' = k0
      · simp [assign, lookup, hk]
      · have hne : ¬ k0 = k' := fun h => hk h.symm
        simp [assign, lookup, hk, hne]
    · simp only [assign, h0, if_false, lookup, ih]
      by_cases hk : k0 = k'
      · subst hk
        simp [h0]
      · simp [hk]

theorem get?_set (d : Dict α β) (k k' : α) (v : β) :
    (d.set k v).get? k' = if k' = k then some v else d.get? k' :=
  lookup_assign k k' v d.entries

@[simp] theorem get?_set_self (d : Dict α β) (k : α) (v : β) :
    (d.set k v).get? k = some v := by
  simp [get?_set]

theorem get?_set_of_ne (d : Dict α β) {k k' : α} (v : β) (h : k' ≠ k) :
    (d.set k v).get? k' = d.get? k' := by
  simp [get?_set, h]

theorem get?_filter (d : Dict α β) (p : α → β → Bool) (k : α) :
    (d.filter p).get? k = (d.get? k).filter (p k) := by
  apply Option.ext
  intro v
  rw [get?_eq_some_iff, Option.filter_eq_some_iff, get?_eq_some_iff]
  simp [filter]

theorem get?_filter_eq_some {d : Dict α β} {p : α → β → Bool} {k : α} {v : β} :
    (d.filter p).get? k = some v ↔ d.get? k = some v ∧ p k v = true := by
  rw [get?_filter, Option.filter_eq_some_iff]

theorem get?_erase (d : Dict α β) (k k' : α) :
    (d.erase k).get? k' = if k' = k then none else d.get? k' := by
  rw [erase, get?_filter]
  by_cases h : k' = k
  · cases hk : d.get? k' <;> simp [h]
  · cases hk : d.get? k' <;> simp [h]

theorem get?_mapValues (d : Dict α β) (f : α → β → γ) (k : α) :
    (d.mapValues f).get? k = (d.get? k).map (f k) := by
  apply Option.ext
  intro w
  simp only [get?_eq_some_iff, mapValues, mem_map, Prod.mk.injEq, Prod.exists,
    Option.map_eq_some_iff]
  constructor
  · rintro ⟨k', v, hmem, rfl, rfl⟩
    exact ⟨v, hmem, rfl⟩
  · rintro ⟨v, hmem, rfl⟩
    exact ⟨k, v, hmem, rfl, rfl⟩

theorem get?_setDefault (d : Dict α β) (k k' : α) (v : β) :
    (d.setDefault k v).get? k' = if k' = k then some ((d.get? k).getD v) else d.get? k' := by
  unfold setDefault contains
  cases hk : d.get? k with
  | none => simp [get?_set]
  | some w =>
    simp only [Option.isSome_some, if_true, Option.getD_some]
    by_cases h : k' = k
    · simp [h, hk]
    · simp [h]

theorem set_eq_self (h : d.get? k = some v) :
    d.set k v = d := by
  have hassign : ∀ es : List (α × β), lookup k es = some v → assign k v es = es := by
    intro es
    induction es with
    | nil => simp [lookup]
    | cons e es ih =>
      obtain ⟨k', v'⟩ := e
      by_cases hk : k' = k
      · simp only [lookup, hk, if_true, Option.some.injEq, assign]
        rintro rfl
        rfl
      · simp only [lookup, hk, if_false, assign]
        intro hes
        rw [ih hes]
  exact ext (hassign d.entries h)

theorem keys_set (d : Dict α β) (k : α) (v : β) :
    (d.set k v).keys = if k ∈ d.keys then d.keys else d.keys ++ [k] :=
  keys_assign k v d.entries

theorem keys_erase (d : Dict α β) (k : α) : (d.erase k).keys = d.keys.filter (· ≠ k) := by
  simp [keys, erase, filter, filter_map, Function.comp_def]

theorem mem_keys_set {k' : α} :
    k' ∈ (d.set k v).keys ↔ k' = k ∨ k' ∈ d.keys := by
  rw [keys_set]
  by_cases hk : k ∈ d.keys
  · rw [if_pos hk]
    exact ⟨Or.inr, fun h => h.elim (fun h => h ▸ hk) id⟩
  · rw [if_neg hk, mem_append, mem_singleton, or_comm]

theorem assign_of_notMem (v : β) (h : k ∉ es.map Prod.fst) :
    assign k v es = es ++ [(k, v)] := by
  induction es with
  | nil => rfl
  | cons e es ih =>
    simp only [map_cons, mem_cons, not_or] at h
    have hne : ¬ e.1 = k := fun heq => h.1 heq.symm
    simp [assign, hne, ih h.2]

theorem entries_ofList (h : (es.map Prod.fst).Nodup) :
    (ofList es).entries = es := by
  have hfold : ∀ (es : List (α × β)) (d : Dict α β),
      ((d.entries ++ es).map Prod.fst).Nodup →
      (es.foldl (fun d e => d.set e.1 e.2) d).entries = d.entries ++ es := by
    intro es
    induction es with
    | nil => simp
    | cons e es ih =>
      intro d hnd
      have hnew : e.1 ∉ d.entries.map Prod.fst := by
        rw [map_append, map_cons] at hnd
        exact fun hmem => (nodup_append.mp hnd).2.2 _ hmem _ (by simp) rfl
      have hset : (d.set e.1 e.2).entries = d.entries ++ [e] := assign_of_notMem e.2 hnew
      rw [foldl_cons, ih _ (by rw [hset]; simpa using hnd), hset]
      simp
  simpa [ofList, empty] using hfold es empty (by simpa [empty] using h)

theorem mem_of_get?_ofList {es : List (α × β)} {k : α} {v : β}
    (h : (ofList es).get? k = some v) : (k, v) ∈ es := by
  have hfold : ∀ (es : List (α × β)) (d : Dict α β),
      (es.foldl (fun d e => d.set e.1 e.2) d).get? k = some v →
      (k, v) ∈ es ∨ d.get? k = some v := by
    intro es
    induction es with
    | nil => exact fun d h => .inr h
    | cons e es ih =>
      intro d h
      rcases ih _ h with hmem | hget
      · exact .inl (mem_cons_of_mem e hmem)
      · rw [get?_set] at hget
        split at hget
        · next hk => exact .inl (by rw [hk, ← Option.some.inj hget]; exact mem_cons_self)
        · exact .inr hget
  rcases hfold es empty h with hmem | hget
  · exact hmem
  · cases hget

theorem mem_keys_ofList (h : k ∈ es.map Prod.fst) :
    k ∈ (ofList es).keys := by
  have hfold : ∀ (es : List (α × β)) (d : Dict α β), k ∈ es.map Prod.fst ∨ k ∈ d.keys →
      k ∈ (es.foldl (fun d e => d.set e.1 e.2) d).keys := by
    intro es
    induction es with
    | nil => exact fun d h => h.resolve_left (by simp)
    | cons e es ih =>
      intro d h
      apply ih
      rw [mem_keys_set]
      rcases h with hmem | hd
      · rcases mem_cons.mp (map_cons ▸ hmem) with hk | hrest
        · exact .inr (.inl hk)
        · exact .inl hrest
      · exact .inr (.inr hd)
  exact hfold es empty (.inl h)

/-! ### Sums over the values

A weighted count of the values; the number of rows with a property is the sum of
its indicator. -/

/-- The sum of `f` over the values. -/
def total (d : Dict α β) (f : β → Nat) : Nat := (d.values.map f).sum

omit [DecidableEq α] in
@[simp] theorem total_empty (f : β → Nat) : (empty : Dict α β).total f = 0 := rfl

theorem total_set_of_none (v : β) (f : β → Nat)
    (h : d.get? k = none) : (d.set k v).total f = d.total f + f v := by
  have hassign : ∀ es : List (α × β), lookup k es = none →
      (((assign k v es).map Prod.snd).map f).sum = ((es.map Prod.snd).map f).sum + f v := by
    intro es
    induction es with
    | nil => simp [assign]
    | cons e es ih =>
      obtain ⟨k', v'⟩ := e
      by_cases hk : k' = k
      · simp [lookup, hk]
      · simp only [lookup, hk, if_false, assign]
        intro hes
        simp only [map_cons, sum_cons, ih hes]
        omega
  exact hassign d.entries h

theorem total_set_of_some {w : β} (v : β) (f : β → Nat)
    (h : d.get? k = some w) : (d.set k v).total f + f w = d.total f + f v := by
  have hassign : ∀ es : List (α × β), lookup k es = some w →
      (((assign k v es).map Prod.snd).map f).sum + f w
        = ((es.map Prod.snd).map f).sum + f v := by
    intro es
    induction es with
    | nil => simp [lookup]
    | cons e es ih =>
      obtain ⟨k', v'⟩ := e
      by_cases hk : k' = k
      · simp only [lookup, hk, if_true, Option.some.injEq, assign]
        rintro rfl
        simp only [map_cons, sum_cons]
        omega
      · simp only [lookup, hk, if_false, assign]
        intro hes
        simp only [map_cons, sum_cons]
        have := ih hes
        omega
  exact hassign d.entries h

theorem total_erase_of_some {w : β} (f : β → Nat)
    (h : d.get? k = some w) : (d.erase k).total f + f w = d.total f := by
  have hlist : ∀ es : List (α × β), (es.map Prod.fst).Nodup → lookup k es = some w →
      (((es.filter fun e => e.1 ≠ k).map Prod.snd).map f).sum + f w
        = ((es.map Prod.snd).map f).sum := by
    intro es
    induction es with
    | nil => simp [lookup]
    | cons e es ih =>
      obtain ⟨k', v'⟩ := e
      intro hnd
      obtain ⟨hk', hes⟩ := nodup_cons.mp (map_cons ▸ hnd)
      by_cases hk : k' = k
      · subst hk
        have hrest : (es.filter fun e => e.1 ≠ k') = es := by
          rw [filter_eq_self]
          intro e he
          simp only [ne_eq, decide_eq_true_eq]
          exact fun h => hk' (mem_map.mpr ⟨e, he, h⟩)
        simp only [lookup, if_true, Option.some.injEq]
        rintro rfl
        simp only [ne_eq, not_true_eq_false, decide_false, Bool.false_eq_true,
          not_false_eq_true, filter_cons_of_neg, map_cons, sum_cons]
        rw [hrest]
        omega
      · simp only [lookup, hk, if_false]
        intro hlook
        simp only [ne_eq, hk, not_false_eq_true, decide_true, filter_cons_of_pos,
          map_cons, sum_cons]
        have := ih hes hlook
        simp only [ne_eq] at this
        omega
  exact hlist d.entries d.nodup h

/-- A dictionary weighs at most as much as another when every value that weighs
anything weighs at most what the other has under the same key. -/
theorem total_le_total {e : Dict α γ} {f : β → Nat} {g : γ → Nat}
    (h : ∀ k v, d.get? k = some v → f v ≠ 0 → ∃ w, e.get? k = some w ∧ f v ≤ g w) :
    d.total f ≤ e.total g := by
  have hlist : ∀ (es : List (α × β)) (e : Dict α γ), (es.map Prod.fst).Nodup →
      (∀ p ∈ es, f p.2 ≠ 0 → ∃ w, e.get? p.1 = some w ∧ f p.2 ≤ g w) →
      ((es.map Prod.snd).map f).sum ≤ e.total g := by
    intro es
    induction es with
    | nil => simp
    | cons p es ih =>
      intro e hnd hes
      obtain ⟨hnot, hnd'⟩ := nodup_cons.mp (map_cons ▸ hnd)
      simp only [map_cons, sum_cons]
      by_cases hzero : f p.2 = 0
      · rw [hzero, Nat.zero_add]
        exact ih e hnd' fun q hq => hes q (mem_cons_of_mem _ hq)
      · obtain ⟨w, hw, hle⟩ := hes p mem_cons_self hzero
        have hrest := ih (e.erase p.1) hnd' fun q hq hq0 => by
          obtain ⟨w', hw', hle'⟩ := hes q (mem_cons_of_mem _ hq) hq0
          refine ⟨w', ?_, hle'⟩
          have hne : q.1 ≠ p.1 := fun heq => hnot (mem_map.mpr ⟨q, hq, heq⟩)
          rw [get?_erase, if_neg hne, hw']
        have herase := total_erase_of_some g hw
        omega
  exact hlist d.entries e d.nodup fun p hp => h p.1 p.2 (get?_eq_some_iff.mpr hp)

omit [DecidableEq α] in
theorem size_eq_total (d : Dict α β) : d.size = d.total fun _ => 1 := by
  simp [size, total, values, Function.comp_def]

omit [DecidableEq α] in
theorem length_filter_values (d : Dict α β) (p : β → Bool) :
    (d.values.filter p).length = d.total fun v => if p v then 1 else 0 := by
  unfold total
  induction d.values with
  | nil => rfl
  | cons v vs ih =>
    rw [map_cons, sum_cons, ← ih]
    cases hp : p v with
    | false => rw [filter_cons_of_neg (by simp [hp]), if_neg (by simp), Nat.zero_add]
    | true => rw [filter_cons_of_pos hp, if_pos rfl, length_cons, Nat.add_comm]

theorem entries_perm {e : Dict α β} (h : ∀ k, d.get? k = e.get? k) :
    d.entries.Perm e.entries := by
  refine (perm_ext_iff_of_nodup d.nodup.of_map e.nodup.of_map).mpr ?_
  rintro ⟨k, v⟩
  rw [← get?_eq_some_iff, ← get?_eq_some_iff, h]

end Dict

end AgenticKibana.Library
