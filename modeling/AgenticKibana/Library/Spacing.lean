import Mathlib.Data.List.TakeWhile
import AgenticKibana.Library.TextLines

/-!
# Runs of whitespace

A text with each run of whitespace made one space, and the same with none at the ends.  Both are
read from left to right with one flag: whether the last character was whitespace.
-/

namespace AgenticKibana.Library.Spacing

open AgenticKibana.Library.TextLines List

def squeeze : Bool → List Char → List Char
  | _, [] => []
  | opened, c :: rest =>
    if isSpace c then if opened then squeeze true rest else ' ' :: squeeze true rest
    else c :: squeeze false rest

def openAfter (opened : Bool) (text : List Char) : Bool := text.foldl (fun _ c => isSpace c) opened

def spaceFirst : List Char → Bool
  | [] => false
  | c :: _ => isSpace c

/-- `re.sub(r"\s+", " ", text)`. -/
def collapse (text : List Char) : List Char := squeeze false text

/-- `" ".join(text.split())`. -/
def normalise (text : List Char) : List Char := collapse (strip text)

variable {opened : Bool} {s t : List Char} {c : Char}

@[simp] theorem openAfter_nil : openAfter opened [] = opened := rfl

@[simp] theorem openAfter_cons : openAfter opened (c :: s) = openAfter (isSpace c) s := rfl

@[simp] theorem openAfter_append : openAfter opened (s ++ t) = openAfter (openAfter opened s) t :=
  foldl_append

@[simp] theorem squeeze_append :
    squeeze opened (s ++ t) = squeeze opened s ++ squeeze (openAfter opened s) t := by
  induction s generalizing opened with
  | nil => rfl
  | cons c s ih =>
    cases hc : isSpace c <;> cases opened <;> simp [squeeze, hc, ih]

theorem squeeze_solid (h : ∀ c ∈ s, isSpace c = false) : squeeze opened s = s := by
  induction s generalizing opened with
  | nil => rfl
  | cons c s ih =>
    rw [forall_mem_cons] at h
    simp [squeeze, h.1, ih h.2]

theorem openAfter_solid (h : ∀ c ∈ s, isSpace c = false) (hne : s ≠ []) :
    openAfter opened s = false := by
  obtain ⟨init, c, rfl⟩ := (eq_nil_or_concat s).resolve_left hne
  simpa using h c (by simp)

theorem squeeze_blanks (n : Nat) :
    squeeze opened (List.replicate n ' ') = if opened ∨ n = 0 then [] else [' '] := by
  have hopen : ∀ n, squeeze true (List.replicate n ' ') = [] := by
    intro n
    induction n with
    | zero => rfl
    | succ n ih => simpa [squeeze, replicate_succ, show isSpace ' ' = true by decide] using ih
  cases n with
  | zero => simp [squeeze]
  | succ n =>
    cases opened with
    | true => simp [hopen]
    | false => simp [squeeze, replicate_succ, hopen, show isSpace ' ' = true by decide]

def spaces (text : List Char) : Nat := text.count ' '

@[simp] theorem spaces_nil : spaces [] = 0 := rfl

@[simp] theorem spaces_append : spaces (s ++ t) = spaces s + spaces t := count_append

theorem spaces_solid (h : ∀ c ∈ s, isSpace c = false) : spaces s = 0 := by
  apply count_eq_zero_of_not_mem
  intro hmem
  exact absurd (h _ hmem) (by decide)

theorem spaces_collapse (opened : Bool) (s : List Char) :
    spaces (collapse s) = spaces (squeeze opened s) + (opened && spaceFirst s).toNat := by
  cases s with
  | nil => simp [collapse, squeeze, spaceFirst]
  | cons c s =>
    cases hc : isSpace c <;> cases opened <;> simp [collapse, squeeze, spaceFirst, spaces, hc]

theorem squeeze_of_apart (h : (opened && spaceFirst s) = false) :
    squeeze opened s = collapse s := by
  cases opened with
  | false => rfl
  | true =>
    cases s with
    | nil => rfl
    | cons c s =>
      have hc : isSpace c = false := h
      simp [collapse, squeeze, hc]

theorem squeeze_dropWhile (s : List Char) :
    squeeze true (s.dropWhile isSpace) = squeeze true s := by
  induction s with
  | nil => rfl
  | cons c s ih => cases hc : isSpace c <;> simp [squeeze, hc, ih]

theorem openAfter_dropWhile (s : List Char) :
    openAfter true (s.dropWhile isSpace) = openAfter true s := by
  induction s with
  | nil => rfl
  | cons c s ih => cases hc : isSpace c <;> simp [hc, ih]

theorem collapse_of_head (h : spaceFirst s = false) : collapse s = squeeze true s :=
  (squeeze_of_apart (by simpa using h)).symm

theorem spaceFirst_dropWhile (s : List Char) : spaceFirst (s.dropWhile isSpace) = false := by
  induction s with
  | nil => rfl
  | cons c s ih =>
    cases hc : isSpace c with
    | false => simp [spaceFirst, hc]
    | true => simpa [hc] using ih

theorem dropWhile_eq_strip (s : List Char) :
    ∃ trail, s.dropWhile isSpace = strip s ++ trail ∧ (∀ c ∈ trail, isSpace c = true) ∧
      (strip s ≠ [] → openAfter true (strip s) = false) := by
  refine ⟨((s.dropWhile isSpace).reverse.takeWhile isSpace).reverse, ?_, ?_, ?_⟩
  · rw [strip, ← reverse_append, takeWhile_append_dropWhile, reverse_reverse]
  · intro c hc
    exact mem_takeWhile_imp (mem_reverse.mp hc)
  · intro hne
    unfold strip at hne ⊢
    cases hlast : (s.dropWhile isSpace).reverse.dropWhile isSpace with
    | nil => simp [hlast] at hne
    | cons c init =>
      have hc : isSpace c = false := by
        have := spaceFirst_dropWhile (s.dropWhile isSpace).reverse
        rwa [hlast] at this
      simp [hc]

theorem openAfter_trail (h : ∀ c ∈ t, isSpace c = true) (hne : t ≠ []) :
    openAfter opened t = true := by
  obtain ⟨init, c, rfl⟩ := (eq_nil_or_concat t).resolve_left hne
  simpa using h c (by simp)

theorem normalise_of_closed (h : openAfter true s = false) : normalise s = squeeze true s := by
  obtain ⟨trail, hs, htrail, -⟩ := dropWhile_eq_strip s
  have hnil : trail = [] := by
    by_contra hne
    rw [← openAfter_dropWhile, hs, openAfter_append, openAfter_trail htrail hne] at h
    exact absurd h (by decide)
  rw [hnil, append_nil] at hs
  rw [normalise, ← hs, collapse_of_head (spaceFirst_dropWhile s), squeeze_dropWhile]

theorem spaces_normalise (hne : ∃ c ∈ s, isSpace c = false) :
    spaces (normalise s) + (openAfter true s).toNat ≤ spaces (squeeze true s) := by
  cases hopen : openAfter true s with
  | false => simp [normalise_of_closed hopen]
  | true =>
    obtain ⟨trail, hs, htrail, hclosed⟩ := dropWhile_eq_strip s
    have hstrip : strip s ≠ [] := by
      intro hnil
      obtain ⟨c, hc, hsolid⟩ := hne
      rw [hnil, nil_append] at hs
      rcases mem_append.mp (takeWhile_append_dropWhile (p := isSpace) (l := s) ▸ hc) with
        htake | hdrop
      · exact absurd (mem_takeWhile_imp htake) (by simp [hsolid])
      · exact absurd (htrail c (hs ▸ hdrop)) (by simp [hsolid])
    have hfirst : spaceFirst (strip s) = false := by
      have := spaceFirst_dropWhile s
      rw [hs] at this
      cases hcase : strip s with
      | nil => exact absurd hcase hstrip
      | cons c more => rwa [hcase] at this
    rw [← squeeze_dropWhile, hs, squeeze_append, hclosed hstrip, spaces_append, normalise,
      collapse_of_head hfirst]
    cases htail : trail with
    | nil =>
      rw [← openAfter_dropWhile, hs, htail, append_nil, hclosed hstrip] at hopen
      exact absurd hopen (by decide)
    | cons c more => simp [squeeze, spaces, htrail c (by simp [htail])]

end AgenticKibana.Library.Spacing
