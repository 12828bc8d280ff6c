import Mathlib.Data.List.Perm.Basic
import Mathlib.Data.List.Perm.Lattice
import Mathlib.Data.List.Count

/-!
# Interleaving buckets one item a pass

`interleave` takes the first item of every bucket, then the second of every bucket, and so on.
What a key selects from a prefix of the result is a prefix of the bucket of that key, and the
lengths of these prefixes differ by at most one over all keys, except where a bucket ran out.
-/

namespace AgenticKibana.Library

open List

variable {α κ : Type*}

def pass (buckets : List (List α)) (depth : Nat) : List α :=
  buckets.filterMap fun bucket => bucket[depth]?

def deepest (buckets : List (List α)) : Nat := (buckets.map List.length).foldr max 0

def interleave (buckets : List (List α)) : List α :=
  (List.range (deepest buckets)).flatMap (pass buckets)

theorem length_le_deepest {buckets : List (List α)} {bucket : List α} (h : bucket ∈ buckets) :
    bucket.length ≤ deepest buckets := by
  induction buckets with
  | nil => simp at h
  | cons b bs ih =>
    simp only [deepest, map_cons, foldr_cons] at ih ⊢
    rcases mem_cons.mp h with rfl | hmem
    · exact Nat.le_max_left _ _
    · exact Nat.le_trans (ih hmem) (Nat.le_max_right _ _)

theorem flatMap_range_getElem? (bucket : List α) (n : Nat) :
    (List.range n).flatMap (fun i => bucket[i]?.toList) = bucket.take n := by
  induction n with
  | zero => simp
  | succ n ih =>
    rw [range_succ, flatMap_append, ih, take_add_one]
    simp

theorem take_flatMap_range (g : Nat → List α) (count n : Nat) :
    ∃ d m, ((List.range count).flatMap g).take n =
      (List.range d).flatMap g ++ (g d).take m := by
  induction count with
  | zero => exact ⟨0, 0, by simp⟩
  | succ count ih =>
    rw [range_succ, flatMap_append, take_append]
    by_cases hn : n ≤ ((List.range count).flatMap g).length
    · obtain ⟨d, m, h⟩ := ih
      exact ⟨d, m, by rw [h, Nat.sub_eq_zero_of_le hn]; simp⟩
    · refine ⟨count, n - ((List.range count).flatMap g).length, ?_⟩
      rw [take_of_length_le (Nat.le_of_not_le hn)]
      simp

section Keyed

variable {f : α → κ}

structure Keyed (f : α → κ) (buckets : List (κ × List α)) : Prop where
  /-- No two buckets share a key. -/
  nodup : (buckets.map Prod.fst).Nodup
  /-- The items have the key of their bucket. -/
  key_eq : ∀ k bucket, (k, bucket) ∈ buckets → ∀ x ∈ bucket, f x = k

variable {buckets : List (κ × List α)} {k : κ}

theorem Keyed.tail {e : κ × List α} (h : Keyed f (e :: buckets)) :
    Keyed f buckets := by
  constructor
  · exact (nodup_cons.mp h.nodup).2
  · exact fun k bucket hmem => h.key_eq k bucket (mem_cons_of_mem e hmem)

variable [DecidableEq κ]

section

variable (hkeyed : Keyed f buckets)

include hkeyed

theorem filter_pass_of_notMem (hk : k ∉ buckets.map Prod.fst) (depth : Nat) :
    (pass (buckets.map Prod.snd) depth).filter (fun x => f x = k) = [] := by
  apply filter_eq_nil_iff.mpr
  intro x hx hfx
  simp only [pass, mem_filterMap, mem_map] at hx
  obtain ⟨_, ⟨⟨k', bucket⟩, hmem, rfl⟩, hget⟩ := hx
  have hkey : f x = k' := hkeyed.key_eq k' bucket hmem x (mem_of_getElem? hget)
  rw [decide_eq_true_iff, hkey] at hfx
  exact hk (mem_map.mpr ⟨(k', bucket), hmem, hfx⟩)

variable {bucket : List α}

theorem filter_pass (hmem : (k, bucket) ∈ buckets) (depth : Nat) :
    (pass (buckets.map Prod.snd) depth).filter (fun x => f x = k) = bucket[depth]?.toList := by
  induction buckets with
  | nil => simp at hmem
  | cons e buckets ih =>
    have hsplit : pass ((e :: buckets).map Prod.snd) depth =
        e.2[depth]?.toList ++ pass (buckets.map Prod.snd) depth := by
      cases hget : e.2[depth]? <;> simp [pass, hget]
    rw [hsplit, filter_append]
    have hnotin : e.1 ∉ buckets.map Prod.fst := (nodup_cons.mp hkeyed.nodup).1
    rcases mem_cons.mp hmem with rfl | htail
    · rw [filter_pass_of_notMem hkeyed.tail hnotin, append_nil]
      apply filter_eq_self.mpr
      intro x hx
      rw [decide_eq_true_iff]
      exact hkeyed.key_eq k bucket (mem_cons_self ..) x
        (mem_of_getElem? (Option.mem_toList.mp hx))
    · rw [ih hkeyed.tail htail]
      have hnil : (e.2[depth]?.toList).filter (fun x => f x = k) = [] := by
        apply filter_eq_nil_iff.mpr
        intro x hx hfx
        have hkey : f x = e.1 := hkeyed.key_eq e.1 e.2 (mem_cons_self ..) x
          (mem_of_getElem? (Option.mem_toList.mp hx))
        rw [decide_eq_true_iff, hkey] at hfx
        exact hnotin (mem_map.mpr ⟨(k, bucket), htail, hfx.symm⟩)
      rw [hnil, nil_append]

/-- **A key selects its whole bucket from the interleaving.** -/
theorem filter_interleave (hmem : (k, bucket) ∈ buckets) :
    (interleave (buckets.map Prod.snd)).filter (fun x => f x = k) = bucket := by
  have hpass : (interleave (buckets.map Prod.snd)).filter (fun x => f x = k) =
      (List.range (deepest (buckets.map Prod.snd))).flatMap fun i => bucket[i]?.toList := by
    rw [interleave, filter_flatMap]
    exact congrArg (fun g => List.flatMap g _) (funext (filter_pass hkeyed hmem))
  rw [hpass, flatMap_range_getElem?]
  exact take_of_length_le
    (length_le_deepest (mem_map.mpr ⟨(k, bucket), hmem, rfl⟩))

theorem filter_interleave_of_notMem (hk : k ∉ buckets.map Prod.fst) :
    (interleave (buckets.map Prod.snd)).filter (fun x => f x = k) = [] := by
  rw [interleave, filter_flatMap]
  apply flatMap_eq_nil_iff.mpr
  exact fun depth _ => filter_pass_of_notMem hkeyed hk depth

/-- **A prefix of the interleaving holds the same number of items of every bucket, up to one
and up to buckets that ran out.** -/
theorem exists_depth (n : Nat) : ∃ d, ∀ k bucket, (k, bucket) ∈ buckets →
      ((interleave (buckets.map Prod.snd)).take n).filter (fun x => f x = k) = bucket.take d ∨
      ((interleave (buckets.map Prod.snd)).take n).filter (fun x => f x = k) =
        bucket.take (d + 1) := by
  obtain ⟨d, m, hcut⟩ := take_flatMap_range (pass (buckets.map Prod.snd))
    (deepest (buckets.map Prod.snd)) n
  refine ⟨d, fun k bucket hmem => ?_⟩
  have hwhole : ((List.range d).flatMap (pass (buckets.map Prod.snd))).filter
      (fun x => f x = k) = bucket.take d := by
    rw [filter_flatMap, ← flatMap_range_getElem?]
    exact congrArg (fun g => List.flatMap g _) (funext (filter_pass hkeyed hmem))
  have hlast : ((pass (buckets.map Prod.snd) d).take m).filter (fun x => f x = k) <+:
      bucket[d]?.toList := by
    rw [← filter_pass hkeyed hmem d]
    exact (List.take_prefix m _).filter _
  rw [interleave, hcut, filter_append, hwhole, take_add_one]
  -- the pass that was cut gave the bucket its item, or did not come to it
  cases hget : bucket[d]? with
  | none =>
    rw [hget] at hlast
    left
    rw [prefix_nil.mp hlast, append_nil]
  | some x =>
    rw [hget] at hlast
    rcases prefix_cons_iff.mp hlast with hnil | ⟨t, ht, htail⟩
    · left
      rw [hnil, append_nil]
    · right
      rw [ht, prefix_nil.mp htail]
      rfl

end

theorem perm_of_filter_perm {l l' : List α}
    (h : ∀ k, (l.filter fun x => f x = k).Perm (l'.filter fun x => f x = k)) : l.Perm l' := by
  classical
  apply perm_iff_count.mpr
  intro x
  have hcount := (h (f x)).count_eq x
  rwa [count_filter (by simp), count_filter (by simp)] at hcount

end Keyed

end AgenticKibana.Library
