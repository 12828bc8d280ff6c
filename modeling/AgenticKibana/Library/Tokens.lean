import Mathlib.Data.List.Basic

/-!
# Tokens between separators

`splitRuns` cuts a text at its runs of separators, as a split at the pattern
`[…]+` does.  A piece that is not empty is a whole token: no separator is in it,
and the text goes on with a separator, or ends, on both of its sides.
-/

namespace AgenticKibana.Library.Tokens

open List

universe u

variable {α : Type u}

/-- Cut a text at its runs of separators; `inRun` tells that the character
before it was one. -/
def splitFrom (sep : α → Bool) : Bool → List α → List (List α)
  | _, [] => [[]]
  | inRun, c :: cs =>
    if sep c then
      if inRun then splitFrom sep true cs else [] :: splitFrom sep true cs
    else
      match splitFrom sep false cs with
      | [] => [[c]]
      | piece :: pieces => (c :: piece) :: pieces

def splitRuns (sep : α → Bool) (text : List α) : List (List α) := splitFrom sep false text

def trimEnds (p : α → Bool) (text : List α) : List α :=
  ((text.dropWhile p).reverse.dropWhile p).reverse

def trimEnd (p : α → Bool) (text : List α) : List α := (text.reverse.dropWhile p).reverse

/-- `text.replace(old, new)`; `skip` characters of the last `old` are still to be
passed over. -/
def replaceFrom [DecidableEq α] (old new : List α) : Nat → List α → List α
  | _, [] => []
  | skip + 1, _ :: cs => replaceFrom old new skip cs
  | 0, c :: cs =>
    if old.isPrefixOf (c :: cs) then new ++ replaceFrom old new (old.length - 1) cs
    else c :: replaceFrom old new 0 cs

def replaceAll [DecidableEq α] (old new text : List α) : List α := replaceFrom old new 0 text

structure Run (sep : α → Bool) (text piece : List α) : Prop where
  ne_nil : piece ≠ []
  free : ∀ c ∈ piece, sep c = false
  bounded : ∃ before after, text = before ++ piece ++ after ∧
    (∀ c, before.getLast? = some c → sep c = true) ∧ ∀ c, after.head? = some c → sep c = true

private def Behind (sep : α → Bool) (text piece : List α) : Prop :=
  (∀ c ∈ piece, sep c = false) ∧ ∃ before s after, text = before ++ s :: piece ++ after ∧
    sep s = true ∧ ∀ c, after.head? = some c → sep c = true

variable {sep : α → Bool} {text piece : List α}

private theorem Behind.cons (c : α) (h : Behind sep text piece) : Behind sep (c :: text) piece := by
  obtain ⟨hfree, before, s, after, rfl, hs, hafter⟩ := h
  exact ⟨hfree, c :: before, s, after, rfl, hs, hafter⟩

/-- Outside a run the first piece is where the text begins, and the others stand
behind separators; inside one, all of them do. -/
private theorem splitFrom_pieces (sep : α → Bool) (text : List α) :
    (∃ piece pieces after, splitFrom sep false text = piece :: pieces ∧ text = piece ++ after ∧
      (∀ c ∈ piece, sep c = false) ∧ (∀ c, after.head? = some c → sep c = true) ∧
      ∀ q ∈ pieces, q ≠ [] → Behind sep text q) ∧
    ∀ s, sep s = true → ∀ q ∈ splitFrom sep true text, q ≠ [] → Behind sep (s :: text) q := by
  induction text with
  | nil =>
    constructor
    · exact ⟨[], [], [], rfl, rfl, by simp, by simp, by simp⟩
    · intro s _ q hq hne
      exact absurd (mem_singleton.mp hq) hne
  | cons c cs ih =>
    obtain ⟨⟨piece, pieces, after, hsplit, hcs, hfree, hafter, hpieces⟩, hinside⟩ := ih
    by_cases hc : sep c = true
    · constructor
      · refine ⟨[], splitFrom sep true cs, c :: cs, by simp [splitFrom, hc], rfl, by simp, ?_, ?_⟩
        · rintro _ ⟨⟩
          exact hc
        · exact hinside c hc
      · intro s _ q hq hne
        simp only [splitFrom, hc, if_true] at hq
        exact (hinside c hc q hq hne).cons s
    · have hfirst : ∀ d ∈ c :: piece, sep d = false := by
        intro d hd
        rcases mem_cons.mp hd with rfl | hd
        · simpa using hc
        · exact hfree d hd
      have hcons : ∀ inRun, splitFrom sep inRun (c :: cs) = (c :: piece) :: pieces := by
        intro inRun
        simp [splitFrom, hc, hsplit]
      constructor
      · refine ⟨c :: piece, pieces, after, hcons false, by simp [hcs], hfirst, hafter, ?_⟩
        exact fun q hq hne => (hpieces q hq hne).cons c
      · intro s hs q hq hne
        rw [hcons true] at hq
        rcases mem_cons.mp hq with rfl | hq
        · exact ⟨hfirst, [], s, after, by simp [hcs], hs, hafter⟩
        · exact ((hpieces q hq hne).cons c).cons s

/-- **A piece that is not empty is a run.** -/
theorem run_of_mem_splitRuns (h : piece ∈ splitRuns sep text) (hne : piece ≠ []) :
    Run sep text piece := by
  obtain ⟨⟨first, pieces, after, hsplit, htext, hfree, hafter, hpieces⟩, -⟩ :=
    splitFrom_pieces sep text
  rw [splitRuns, hsplit] at h
  rcases mem_cons.mp h with rfl | h
  · exact ⟨hne, hfree, [], after, by simpa using htext, by simp, hafter⟩
  · obtain ⟨hfree', before, s, after', htext', hs, hafter'⟩ := hpieces piece h hne
    refine ⟨hne, hfree', before ++ [s], after', by simp [htext'], ?_, hafter'⟩
    intro c hc
    simp only [getLast?_append, getLast?_singleton, Option.some_or,
      Option.some.injEq] at hc
    exact hc ▸ hs

theorem Run.eq_of_free (h : Run sep text piece) (hfree : ∀ c ∈ text, sep c = false) :
    piece = text := by
  obtain ⟨-, -, before, after, rfl, hbefore, hafter⟩ := h
  have hbefore : before = [] := by
    cases hlast : before.getLast? with
    | none => exact getLast?_eq_none_iff.mp hlast
    | some c =>
      have hmem := mem_of_getLast? hlast
      simpa [hfree c (by simp [hmem])] using hbefore c hlast
  have hafter : after = [] := by
    cases after with
    | nil => rfl
    | cons c rest => simpa [hfree c (by simp)] using hafter c rfl
  simp [hbefore, hafter]

theorem not_run_of_all (hall : ∀ c ∈ text, sep c = true) : ¬ Run sep text piece := by
  rintro ⟨hne, hfree, before, after, rfl, -, -⟩
  obtain ⟨c, rest, rfl⟩ := exists_cons_of_ne_nil hne
  simpa [hfree c (by simp)] using hall c (by simp)

theorem replaceAll_of_notMem [DecidableEq α] {first : α} {old new : List α} (h : first ∉ text) :
    replaceAll (first :: old) new text = text := by
  unfold replaceAll
  induction text with
  | nil => rfl
  | cons c cs ih =>
    rw [mem_cons, not_or] at h
    have hc : (first :: old).isPrefixOf (c :: cs) = false := by simp [List.isPrefixOf, h.1]
    rw [replaceFrom, hc, if_neg Bool.false_ne_true, ih h.2]

end AgenticKibana.Library.Tokens
