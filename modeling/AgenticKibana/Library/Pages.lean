import Mathlib.Data.List.Basic
import Mathlib.Data.List.Infix

/-!
# A list kept in pages

The items of a list stand on pages of a fixed size, the last of which may be short.  A slice is read
page by page.  `Holds` says that the pages reach as far as a count and that what stands on them is
the list, seen through `f`; then a slice of the pages is that slice of the list.
-/

namespace AgenticKibana.Library.Pages

open List

variable {α β : Type*}

def part (size start stop number : Nat) : Option (List α) → List α
  | none => []
  | some items =>
    (items.take (min stop (number * size + size) - number * size)).drop
      (max start (number * size) - number * size)

/-- The items from `start` up to `stop`, of which there are `count`. -/
def slice (size : Nat) (pages : Nat → Option (List α)) (count start stop : Nat) : List α :=
  let stop := min count stop
  if stop ≤ start then []
  else
    let first := start / size
    let last := (stop - 1) / size
    (List.range' first (last + 1 - first)).flatMap fun number =>
      part size start stop number (pages number)

/-- The pages reach as far as `count`. -/
def Covers (size : Nat) (pages : Nat → Option (List α)) (count : Nat) : Prop :=
  ∀ number, number * size < count →
    ∃ items, pages number = some items ∧ min size (count - number * size) ≤ items.length

def Agrees (size : Nat) (pages : Nat → Option (List α)) (f : α → β) (xs : List β) : Prop :=
  ∀ number items, pages number = some items → items.map f <+: xs.drop (number * size)

variable {size : Nat} {pages : Nat → Option (List α)} {f : α → β} {xs : List β}
  {count start stop : Nat}

theorem take_of_isPrefix {ys zs : List β} (h : ys <+: zs) {n : Nat} (hn : n ≤ ys.length) :
    ys.take n = zs.take n := by
  obtain ⟨rest, rfl⟩ := h
  rw [take_append_of_le_length hn]

theorem map_part (hcovers : Covers size pages count) (hagrees : Agrees size pages f xs)
    (hstop : stop ≤ count) {number : Nat} (hnumber : number * size < stop) :
    (part size start stop number (pages number)).map f =
      ((xs.drop (number * size)).take (min stop (number * size + size) - number * size)).drop
        (start - number * size) := by
  obtain ⟨items, hitems, hlength⟩ := hcovers number (hnumber.trans_le hstop)
  have hle : min stop (number * size + size) - number * size ≤ (items.map f).length := by
    rw [length_map]
    omega
  have hmax : max start (number * size) - number * size = start - number * size := by
    omega
  rw [hitems]
  unfold part
  rw [map_drop, map_take, take_of_isPrefix (hagrees number items hitems) hle, hmax]

theorem map_slice_of_parts (hsize : 0 < size) (hcount : count ≤ xs.length)
    (hparts : ∀ number, number * size < min count stop →
      (part size start (min count stop) number (pages number)).map f =
        ((xs.drop (number * size)).take
          (min (min count stop) (number * size + size) - number * size)).drop
            (start - number * size)) :
    (slice size pages count start stop).map f = (xs.take (min count stop)).drop start := by
  unfold slice
  dsimp only
  generalize hend : min count stop = limit at hparts
  have hlimit : limit ≤ count := by omega
  by_cases hempty : limit ≤ start
  · rw [if_pos hempty, map_nil, drop_eq_nil_of_le]
    rw [length_take]
    omega
  rw [if_neg hempty]
  have hfirst : start / size * size ≤ start := Nat.div_mul_le_self _ _
  -- after `k` pages, what was read reaches up to the next one
  have hpages : ∀ k, (∀ i, i < k → (start / size + i) * size < limit) →
      ((List.range' (start / size) k).flatMap fun number =>
        part size start limit number (pages number)).map f =
        (xs.take (min limit ((start / size + k) * size))).drop start := by
    intro k
    induction k with
    | zero =>
      intro _
      rw [range'_zero, flatMap_nil, map_nil, drop_eq_nil_of_le]
      rw [length_take, Nat.add_zero]
      omega
    | succ k ih =>
      intro hinside
      have hhere := hinside k (Nat.lt_succ_self k)
      have hnext : (start / size + (k + 1)) * size = (start / size + k) * size + size := by
        rw [← Nat.add_assoc, Nat.succ_mul]
      rw [range'_concat, flatMap_append, map_append,
        ih fun i hi => hinside i (hi.trans (Nat.lt_succ_self k)), Nat.one_mul,
        flatMap_singleton, hparts _ hhere, hnext]
      generalize (start / size + k) * size = base at hhere
      have hmin : min limit base = base := by omega
      have hsplit : min limit (base + size) = base + (min limit (base + size) - base) := by omega
      have hlength : (xs.take base).length = base := by
        rw [length_take]
        omega
      rw [hmin]
      conv_rhs => rw [hsplit, take_add, drop_append, hlength]
  have hlast : (limit - 1) / size * size ≤ limit - 1 := Nat.div_mul_le_self _ _
  have hmono : start / size ≤ (limit - 1) / size := Nat.div_le_div_right (by omega)
  rw [hpages]
  · -- the last page reaches the end
    have hreach : limit ≤ (start / size + ((limit - 1) / size + 1 - start / size)) * size := by
      have hpage : start / size + ((limit - 1) / size + 1 - start / size) =
          (limit - 1) / size + 1 := by
        omega
      rw [hpage]
      have hlt := Nat.lt_mul_div_succ (limit - 1) hsize
      rw [Nat.mul_comm] at hlt
      omega
    rw [Nat.min_eq_left hreach]
  · intro i hi
    have hle : (start / size + i) * size ≤ (limit - 1) / size * size :=
      Nat.mul_le_mul_right _ (by omega)
    omega

/-- **A slice of the pages** is that slice of the list. -/
theorem map_slice (hsize : 0 < size) (hcovers : Covers size pages count)
    (hagrees : Agrees size pages f xs) (hcount : count ≤ xs.length) :
    (slice size pages count start stop).map f = (xs.take (min count stop)).drop start :=
  map_slice_of_parts hsize hcount fun _ => map_part hcovers hagrees (Nat.min_le_left _ _)

def Holds (size : Nat) (pages : Nat → Option (List α)) (ys : List α) : Prop :=
  ∀ number, number * size < ys.length →
    ∃ items, pages number = some items ∧
      items.take (min size (ys.length - number * size)) = (ys.drop (number * size)).take size

theorem holds_nil : Holds size pages [] := by
  intro number hnumber
  exact absurd hnumber (Nat.not_lt_zero _)

theorem take_piece (size : Nat) (ys zs : List α) (number : Nat) :
    (((ys ++ zs).drop (number * size)).take size).take (min size (ys.length - number * size)) =
      (ys.drop (number * size)).take size := by
  rw [take_take, Nat.min_eq_left (Nat.min_le_left _ _), drop_append,
    take_append_of_le_length, ← length_drop]
  · exact take_eq_take_min.symm
  · rw [length_drop]
    exact Nat.min_le_right _ _

/-- **A slice of what the pages hold.** -/
theorem Holds.slice {ys : List α} (h : Holds size pages ys) (hsize : 0 < size) :
    slice size pages ys.length start stop = (ys.take stop).drop start := by
  have hparts : ∀ number, number * size < min ys.length stop →
      (part size start (min ys.length stop) number (pages number)).map id =
        ((ys.drop (number * size)).take
          (min (min ys.length stop) (number * size + size) - number * size)).drop
            (start - number * size) := by
    intro number hnumber
    obtain ⟨items, hitems, hpiece⟩ := h number (by omega)
    have hlimit : min ys.length stop ≤ ys.length := Nat.min_le_left _ _
    generalize min ys.length stop = limit at hnumber hlimit ⊢
    have hle : min limit (number * size + size) - number * size ≤
        min size (ys.length - number * size) := by
      omega
    have hsize' : min limit (number * size + size) - number * size ≤ size := by omega
    have htake := congrArg (List.take (min limit (number * size + size) - number * size)) hpiece
    rw [take_take, take_take, Nat.min_eq_left hle, Nat.min_eq_left hsize'] at htake
    have hmax : max start (number * size) - number * size = start - number * size := by omega
    rw [List.map_id, hitems]
    unfold part
    dsimp only
    rw [htake, hmax]
  have hslice := map_slice_of_parts (f := id) hsize (le_refl ys.length) hparts
  rw [List.map_id, Nat.min_comm, ← take_eq_take_min] at hslice
  exact hslice

def writeFrom (size : Nat) (pages : Nat → Option (List α)) (page : Nat) (items : List α) :
    Nat → Nat → Option (List α)
  | 0 => pages
  | writes + 1 =>
    if items = [] then pages
    else
      writeFrom size (Function.update pages page (some (items.take size))) (page + 1)
        (items.drop size) writes

variable {page writes : Nat} {ys zs : List α}

/-- **What is written**: each page its piece of the list, as far as the list and the writes go. -/
theorem writeFrom_eq (number : Nat) :
    writeFrom size pages page (ys.drop (page * size)) writes number =
      if page ≤ number ∧ number < page + writes ∧ number * size < ys.length then
        some ((ys.drop (number * size)).take size)
      else pages number := by
  induction writes generalizing pages page with
  | zero =>
    rw [writeFrom, if_neg]
    rintro ⟨hle, hlt, -⟩
    exact absurd (hle.trans_lt hlt) (lt_irrefl _)
  | succ writes ih =>
    rw [writeFrom]
    by_cases hend : ys.drop (page * size) = []
    · rw [if_pos hend, if_neg]
      rintro ⟨hle, -, hinside⟩
      have hlength := drop_eq_nil_iff.mp hend
      have hmul : page * size ≤ number * size := Nat.mul_le_mul_right _ hle
      omega
    · have hnext : (ys.drop (page * size)).drop size = ys.drop ((page + 1) * size) := by
        rw [drop_drop, Nat.succ_mul]
      rw [if_neg hend, hnext, ih]
      by_cases hhere : number = page
      · subst hhere
        have hinside : number * size < ys.length := by
          by_contra hle
          exact hend (drop_eq_nil_of_le (by omega))
        rw [if_neg (fun h => absurd h.1 (by omega)), Function.update_self,
          if_pos ⟨le_rfl, by omega, hinside⟩]
      · rw [Function.update_of_ne hhere]
        congr 1
        apply propext
        constructor
        · rintro ⟨hle, hlt, hinside⟩
          exact ⟨by omega, by omega, hinside⟩
        · rintro ⟨hle, hlt, hinside⟩
          exact ⟨by omega, by omega, hinside⟩

theorem Holds.writeFrom (h : Holds size pages ys) :
    Holds size (writeFrom size pages page ((ys ++ zs).drop (page * size)) writes) ys := by
  intro number hnumber
  rw [writeFrom_eq]
  split
  · exact ⟨_, rfl, take_piece size ys zs number⟩
  · exact h number hnumber

/-- **All pages are written** from the one on that the list ends on. -/
theorem Holds.append (h : Holds size pages ys) (hpage : page * size ≤ ys.length)
    (hwrites : (ys ++ zs).length ≤ (page + writes) * size) :
    Holds size (Pages.writeFrom size pages page ((ys ++ zs).drop (page * size)) writes)
      (ys ++ zs) := by
  intro number hnumber
  rw [writeFrom_eq]
  have hbefore : number < page + writes := by
    by_contra hge
    have hmul : (page + writes) * size ≤ number * size := Nat.mul_le_mul_right _ (by omega)
    omega
  by_cases hwritten : page ≤ number
  · rw [if_pos ⟨hwritten, hbefore, hnumber⟩]
    refine ⟨_, rfl, ?_⟩
    have hpiece := take_piece size (ys ++ zs) [] number
    rw [append_nil] at hpiece
    exact hpiece
  · -- a page before is full
    have hfull : (number + 1) * size ≤ page * size := Nat.mul_le_mul_right _ (by omega)
    rw [Nat.succ_mul] at hfull
    rw [if_neg (fun hcond => hwritten hcond.1)]
    have hpos : 0 < size := by
      by_contra hzero
      have hsize : size = 0 := by omega
      rw [hsize, Nat.mul_zero] at hwrites
      omega
    obtain ⟨items, hitems, hpiece⟩ := h number (by omega)
    refine ⟨items, hitems, ?_⟩
    have hold : min size (ys.length - number * size) = size := by omega
    have hnew : min size ((ys ++ zs).length - number * size) = size := by
      rw [length_append]
      omega
    rw [hold] at hpiece
    rw [hnew, hpiece, drop_append, take_append_of_le_length]
    rw [length_drop]
    omega

end AgenticKibana.Library.Pages
