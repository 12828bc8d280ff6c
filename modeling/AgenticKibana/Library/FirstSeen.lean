import Mathlib.Data.List.Dedup
import Mathlib.Data.Finset.Card
import Mathlib.Data.Finset.Image

/-!
# Lists of distinct values in the order they were first seen

`List.eraseDups` keeps the first occurrence of every value.  A set that grows by appending and
erasing duplicates keeps what it has in front; how much it grows is counted here by the image of
what it was given.
-/

namespace AgenticKibana.Library

open List

variable {α : Type*} {β : Type*} [DecidableEq α] [DecidableEq β] {as bs : List α}

theorem mem_removeAll {a : α} : a ∈ bs.removeAll as ↔ a ∈ bs ∧ a ∉ as := by
  simp [List.removeAll, mem_filter]

theorem nodup_eraseDups (as : List α) : as.eraseDups.Nodup := by
  induction hn : as.length using Nat.strong_induction_on generalizing as with
  | _ n ih =>
    cases as with
    | nil => simp
    | cons a as =>
      rw [eraseDups_cons, nodup_cons]
      constructor
      · simp [mem_eraseDups]
      · refine ih _ ?_ _ rfl
        have hle := length_filter_le (fun b => !b == a) as
        simp only [length_cons] at hn
        omega

theorem eraseDups_of_nodup (has : as.Nodup) : as.eraseDups = as := by
  induction as with
  | nil => simp
  | cons a as ih =>
    obtain ⟨hnot, hrest⟩ := nodup_cons.mp has
    have hkept : as.filter (fun b => !b == a) = as := by
      apply filter_eq_self.mpr
      intro b hb
      have hne : b ≠ a := fun h => hnot (h ▸ hb)
      simp [hne]
    rw [eraseDups_cons, hkept, ih hrest]

theorem eraseDups_append_of_nodup (has : as.Nodup) (bs : List α) :
    (as ++ bs).eraseDups = as ++ (bs.removeAll as).eraseDups := by
  rw [eraseDups_append, eraseDups_of_nodup has]

theorem length_eraseDups (as : List α) : as.eraseDups.length = as.toFinset.card := by
  have hset : as.eraseDups.toFinset = as.toFinset := by
    ext a
    simp [mem_eraseDups]
  rw [← hset, toFinset_card_of_nodup (nodup_eraseDups as)]

theorem length_eraseDups_append (has : as.Nodup) (bs : List α) :
    (as ++ bs).eraseDups.length = as.length + (bs.removeAll as).toFinset.card := by
  rw [eraseDups_append_of_nodup has, length_append, length_eraseDups]

theorem eraseDups_append_eq_self (has : as.Nodup) :
    (as ++ bs).eraseDups.length = as.length ↔ ∀ b ∈ bs, b ∈ as := by
  rw [length_eraseDups_append has, Nat.add_eq_left, Finset.card_eq_zero,
    toFinset_eq_empty_iff, eq_nil_iff_forall_not_mem]
  simp only [mem_removeAll, not_and_not_right]

/-- **Growing by names**: values filtered by `p` and then named by `f` add as many names as there
are new values exactly if every new value passes `p` and has a name that is not there yet and no
other has. -/
theorem card_named_eq_iff (f : α → β) (p : α → Bool) (names : List β) (new : List α) :
    (((new.filter p).map f).removeAll names).toFinset.card = new.toFinset.card ↔
      ∀ a ∈ new, p a = true ∧ f a ∉ names ∧ ∀ b ∈ new, f b = f a → b = a := by
  let kept := new.toFinset.filter fun a => p a = true ∧ f a ∉ names
  have himage : (((new.filter p).map f).removeAll names).toFinset = kept.image f := by
    ext k
    simp only [kept, List.mem_toFinset, mem_removeAll, List.mem_map, mem_filter,
      Finset.mem_image, Finset.mem_filter]
    constructor
    · rintro ⟨⟨a, ⟨ha, hp⟩, rfl⟩, hk⟩
      exact ⟨a, ⟨ha, hp, hk⟩, rfl⟩
    · rintro ⟨a, ⟨ha, hp, hk⟩, rfl⟩
      exact ⟨⟨a, ⟨ha, hp⟩, rfl⟩, hk⟩
  have hkept : kept.card ≤ new.toFinset.card := Finset.card_filter_le _ _
  have hnamed : (kept.image f).card ≤ kept.card := Finset.card_image_le
  rw [himage]
  constructor
  · intro hcard
    have hall : kept = new.toFinset :=
      Finset.eq_of_subset_of_card_le (Finset.filter_subset _ _) (by omega)
    have hinj : Set.InjOn f new.toFinset := hall ▸ Finset.card_image_iff.mp (by omega)
    intro a ha
    have hin : a ∈ kept := hall ▸ List.mem_toFinset.mpr ha
    obtain ⟨hp, hk⟩ := (Finset.mem_filter.mp hin).2
    exact ⟨hp, hk, fun b hb hba => hinj (List.mem_toFinset.mpr hb) (List.mem_toFinset.mpr ha) hba⟩
  · intro hall
    have heq : kept = new.toFinset := by
      apply Finset.filter_true_of_mem
      intro a ha
      obtain ⟨hp, hk, _⟩ := hall a (List.mem_toFinset.mp ha)
      exact ⟨hp, hk⟩
    rw [heq]
    apply Finset.card_image_of_injOn
    intro a ha b hb hab
    exact (hall b (List.mem_toFinset.mp hb)).2.2 a (List.mem_toFinset.mp ha) hab

end AgenticKibana.Library
