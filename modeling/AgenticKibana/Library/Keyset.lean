import Mathlib.Data.List.Sort
import Mathlib.Order.Defs.LinearOrder

/-!
# Keyset paging

A page is the first rows, in the order of their keys, that lie behind a key.  Where no two
rows have one key, a full page holds exactly the rows up to its last key, and a page that is
not full holds all that is left.
-/

namespace AgenticKibana.Library.Keyset

open List

universe u v

variable {α : Type u} {κ : Type v} [LinearOrder κ]

def behind (key : α → κ) (after : Option κ) (rows : List α) : List α :=
  (rows.filter fun r => after.all fun k => decide (k < key r)).insertionSort fun a b =>
    key a ≤ key b

def page (key : α → κ) (after : Option κ) (n : Nat) (rows : List α) : List α :=
  (behind key after rows).take n

def Behind (after : Option κ) (k : κ) : Prop := ∀ a, after = some a → a < k

variable {key : α → κ} {after : Option κ} {rows : List α} {n : Nat} {r : α}

theorem mem_behind : r ∈ behind key after rows ↔ r ∈ rows ∧ Behind after (key r) := by
  unfold behind Behind
  rw [mem_insertionSort, mem_filter]
  cases after with
  | none => simp
  | some a => simp

theorem behind_pairwise (hnodup : (rows.map key).Nodup) :
    (behind key after rows).Pairwise fun a b => key a < key b := by
  have hle : (behind key after rows).Pairwise fun a b => key a ≤ key b :=
    pairwise_insertionSort _ _
  have hne : ((behind key after rows).map key).Nodup := by
    have hperm := (perm_insertionSort (fun a b => key a ≤ key b)
      (rows.filter fun r => after.all fun k => decide (k < key r))).map key
    exact hperm.nodup_iff.mpr (hnodup.sublist (filter_sublist.map key))
  rw [nodup_iff_pairwise_ne, pairwise_map] at hne
  exact (hle.and hne).imp fun h => lt_of_le_of_ne h.1 h.2

theorem mem_rows_of_mem_page (h : r ∈ page key after n rows) :
    r ∈ rows ∧ Behind after (key r) :=
  mem_behind.mp (mem_of_mem_take h)

/-- **A page that is not full** holds all that is left. -/
theorem mem_page_of_short (h : (page key after n rows).length < n) :
    r ∈ page key after n rows ↔ r ∈ rows ∧ Behind after (key r) := by
  have hall : page key after n rows = behind key after rows := by
    unfold page at h ⊢
    rw [length_take] at h
    exact take_of_length_le (by omega)
  rw [hall]
  exact mem_behind

/-- **A full page** holds what is left up to its last key. -/
theorem mem_page_of_last (hnodup : (rows.map key).Nodup) {last : α}
    (hlast : (page key after n rows).getLast? = some last) :
    r ∈ page key after n rows ↔ r ∈ rows ∧ Behind after (key r) ∧ key r ≤ key last := by
  have hsorted : (page key after n rows ++ (behind key after rows).drop n).Pairwise
      fun a b => key a < key b := by
    unfold page
    rw [take_append_drop]
    exact behind_pairwise hnodup
  obtain ⟨hpage, -, hcross⟩ := pairwise_append.mp hsorted
  have hmem : last ∈ page key after n rows := mem_of_getLast? hlast
  constructor
  · intro h
    obtain ⟨hrows, hbehind⟩ := mem_rows_of_mem_page h
    refine ⟨hrows, hbehind, ?_⟩
    obtain ⟨init, hinit⟩ := getLast?_eq_some_iff.mp hlast
    rw [hinit] at h hpage
    rcases mem_append.mp h with hbefore | hend
    · exact ((pairwise_append.mp hpage).2.2 r hbefore last mem_cons_self).le
    · rw [mem_singleton.mp hend]
  · rintro ⟨hrows, hbehind, hle⟩
    have hall : r ∈ page key after n rows ++ (behind key after rows).drop n := by
      unfold page
      rw [take_append_drop]
      exact mem_behind.mpr ⟨hrows, hbehind⟩
    rcases mem_append.mp hall with hin | hout
    · exact hin
    · exact absurd (hcross last hmem r hout) (not_lt.mpr hle)

end AgenticKibana.Library.Keyset
