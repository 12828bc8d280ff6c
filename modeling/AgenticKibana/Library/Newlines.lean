import Mathlib.Data.List.Basic
import Mathlib.Data.List.Infix
import Mathlib.Data.List.TakeWhile

/-!
# Line ends and lines, piece by piece

`normalise` turns the line ends of a text into `\n`; `push` does so for a text that arrives in
pieces, and keeps a `\r` at the end of a piece back until it is known whether `\n` follows.
`search` looks for the first line that meets a condition: what it finds in the lines that have
ended does not depend on what follows.
-/

namespace AgenticKibana.Library.Newlines

open List

/-- `text.replace("\r\n", "\n")`. -/
def joinCrLf : List Char → List Char
  | [] => []
  | c :: cs =>
    if c = '\r' ∧ cs.head? = some '\n' then joinCrLf cs else c :: joinCrLf cs

/-- `text.replace("\r\n", "\n").replace("\r", "\n")`. -/
def normalise (text : List Char) : List Char :=
  (joinCrLf text).map fun c => if c = '\r' then '\n' else c

theorem joinCrLf_append {a b : List Char}
    (h : a.getLast? ≠ some '\r' ∨ b.head? ≠ some '\n') :
    joinCrLf (a ++ b) = joinCrLf a ++ joinCrLf b := by
  induction a with
  | nil => rfl
  | cons c a ih =>
    have htail : a.getLast? ≠ some '\r' ∨ b.head? ≠ some '\n' := by
      refine h.imp_left ?_
      intro hc hlast
      rw [getLast?_cons, hlast] at hc
      exact hc rfl
    rw [List.cons_append, joinCrLf, joinCrLf, ih htail]
    cases a with
    | nil =>
      -- at the seam the two characters must not belong together
      by_cases hc : c = '\r' ∧ b.head? = some '\n'
      · rcases h with hlast | hhead
        · exact absurd (congrArg some hc.1) hlast
        · exact absurd hc.2 hhead
      · rw [nil_append, if_neg hc, if_neg (fun hnil => nomatch hnil.2)]
        rfl
    | cons d a =>
      by_cases hc : c = '\r' ∧ d = '\n'
      · rw [if_pos ⟨hc.1, congrArg some hc.2⟩, if_pos ⟨hc.1, congrArg some hc.2⟩]
      · rw [if_neg fun h => hc ⟨h.1, Option.some.inj h.2⟩,
          if_neg fun h => hc ⟨h.1, Option.some.inj h.2⟩]
        rfl

theorem normalise_append {a b : List Char}
    (h : a.getLast? ≠ some '\r' ∨ b.head? ≠ some '\n') :
    normalise (a ++ b) = normalise a ++ normalise b := by
  unfold normalise
  rw [joinCrLf_append h, map_append]

theorem normalise_of_not_mem {text : List Char} (h : '\r' ∉ text) : normalise text = text := by
  induction text with
  | nil => rfl
  | cons c cs ih =>
    obtain ⟨hc, hcs⟩ := not_or.mp (mt mem_cons.mpr h)
    have hjoin := normalise_append (a := [c]) (b := cs) (.inl fun h => hc (Option.some.inj h).symm)
    rw [singleton_append, ih hcs] at hjoin
    have hne : ¬ c = '\r' := fun h => hc h.symm
    have hone : normalise [c] = [c] := by
      simp [normalise, joinCrLf, hne]
    rw [hjoin, hone]
    rfl

theorem cr_not_mem_normalise (text : List Char) : '\r' ∉ normalise text := by
  unfold normalise
  intro h
  obtain ⟨c, -, hc⟩ := List.mem_map.mp h
  by_cases hcr : c = '\r'
  · rw [if_pos hcr] at hc
    cases hc
  · rw [if_neg hcr] at hc
    exact hcr hc

theorem normalise_normalise (text : List Char) : normalise (normalise text) = normalise text :=
  normalise_of_not_mem (cr_not_mem_normalise text)

/-! ### Pieces -/

/-- What can be passed on of a piece, and whether a `\r` is kept back. -/
def hold (piece : List Char) : List Char × Bool :=
  if piece.getLast? = some '\r' then (normalise piece.dropLast, true) else (normalise piece, false)

/-- Add a piece to the `\r` that is pending. -/
def push (pending : Bool) (piece : List Char) : List Char × Bool :=
  hold (if pending then '\r' :: piece else piece)

def flush (pending : Bool) : List Char := if pending then ['\n'] else []

/-- `out` was passed on of `raw`. -/
inductive Passed : List Char → List Char → Bool → Prop where
  | whole {raw : List Char} (h : raw.getLast? ≠ some '\r') : Passed raw (normalise raw) false
  | held (raw : List Char) : Passed (raw ++ ['\r']) (normalise raw) true

theorem Passed.nil : Passed [] [] false := .whole (fun h => nomatch h)

variable {raw out : List Char} {pending : Bool}

theorem Passed.flush (h : Passed raw out pending) : out ++ flush pending = normalise raw := by
  cases h with
  | whole _ => exact append_nil _
  | held raw =>
    have hseam : raw.getLast? ≠ some '\r' ∨ ['\r'].head? ≠ some '\n' := .inr (by decide)
    exact (normalise_append hseam).symm

variable {piece : List Char}

theorem Passed.of_piece (raw : List Char) (hne : piece ≠ [])
    (h : raw.getLast? ≠ some '\r' ∨ piece.head? ≠ some '\n') :
    Passed (raw ++ piece) (normalise raw ++ (hold piece).1) (hold piece).2 := by
  unfold hold
  by_cases hlast : piece.getLast? = some '\r'
  · obtain ⟨front, rfl⟩ := getLast?_eq_some_iff.mp hlast
    rw [if_pos hlast, dropLast_concat, ← append_assoc]
    have hseam : raw.getLast? ≠ some '\r' ∨ front.head? ≠ some '\n' := by
      refine h.imp_right ?_
      intro hhead hfront
      rw [head?_append, hfront] at hhead
      exact hhead rfl
    rw [← normalise_append hseam]
    exact .held _
  · rw [if_neg hlast, ← normalise_append h]
    refine .whole ?_
    rw [getLast?_append_of_ne_nil _ hne]
    exact hlast

/-- **One piece**: what is passed on grows by what `push` gives. -/
theorem Passed.push (h : Passed raw out pending) (hne : piece ≠ []) :
    Passed (raw ++ piece) (out ++ (push pending piece).1) (push pending piece).2 := by
  cases h with
  | whole hlast => exact Passed.of_piece raw hne (.inl hlast)
  | held raw =>
    rw [append_assoc]
    exact Passed.of_piece raw (cons_ne_nil _ _) (.inr (by simp))

theorem Passed.normalise_out (h : Passed raw out pending) : normalise out = out := by
  cases h with
  | whole _ => exact normalise_normalise _
  | held raw => exact normalise_normalise raw

/-! ### Lines -/

section Search

variable (p : List Char → Bool)

def line (text : List Char) : List Char := text.takeWhile fun c => c != '\n'

def behind (text : List Char) : List Char := text.dropWhile fun c => c != '\n'

/-- The text before the first line that meets the condition, and the text from its end on; `start`
tells whether the text begins a line. -/
def search : Bool → List Char → Option (List Char × List Char)
  | start, [] => if start && p [] then some ([], []) else none
  | start, c :: cs =>
    if start && p (line (c :: cs)) then some ([], behind (c :: cs))
    else (search (c == '\n') cs).map fun r => (c :: r.1, r.2)

variable {p} {start : Bool} {text before rest : List Char}

theorem line_append_behind (text : List Char) : line text ++ behind text = text :=
  takeWhile_append_dropWhile

theorem behind_cases (text : List Char) :
    behind text = [] ∨ ∃ more, behind text = '\n' :: more := by
  cases hbehind : behind text with
  | nil => exact .inl rfl
  | cons c more =>
    have hhead := head?_dropWhile_not (fun c => c != '\n') text
    unfold behind at hbehind
    rw [hbehind] at hhead
    have hc : c = '\n' := by simpa using hhead
    exact .inr ⟨more, by rw [hc]⟩

theorem line_append (a x : List Char) : line (a ++ '\n' :: x) = line a := by
  unfold line
  induction a with
  | nil => rfl
  | cons c a ih =>
    rw [List.cons_append, takeWhile_cons, takeWhile_cons, ih]

theorem behind_append (a x : List Char) : behind (a ++ '\n' :: x) = behind (a ++ ['\n']) ++ x := by
  unfold behind
  induction a with
  | nil => rfl
  | cons c a ih =>
    rw [List.cons_append, List.cons_append, dropWhile_cons, dropWhile_cons, ih]
    split
    · rfl
    · rw [List.cons_append, append_assoc]
      rfl

theorem search_eq_some (h : search p start text = some (before, rest)) :
    ∃ found, text = before ++ (found ++ rest) ∧ p found = true ∧
      (rest = [] ∨ ∃ more, rest = '\n' :: more) := by
  induction text generalizing start before with
  | nil =>
    unfold search at h
    split at h
    · rename_i hp
      rw [Bool.and_eq_true] at hp
      cases h
      exact ⟨[], rfl, hp.2, .inl rfl⟩
    · cases h
  | cons c cs ih =>
    unfold search at h
    split at h
    · rename_i hp
      rw [Bool.and_eq_true] at hp
      cases h
      exact ⟨_, (line_append_behind _).symm, hp.2, behind_cases _⟩
    · obtain ⟨⟨front, rest'⟩, hrec, heq⟩ := Option.map_eq_some_iff.mp h
      cases heq
      obtain ⟨found, htext, hfound, hrest⟩ := ih hrec
      exact ⟨found, by rw [htext]; rfl, hfound, hrest⟩

/-- **The lines that have ended** decide by themselves: either the line is found among them, or the
search goes on behind them. -/
theorem search_append (hp : p [] = false) (start : Bool) (a x : List Char) :
    search p start (a ++ '\n' :: x) =
      match search p start (a ++ ['\n']) with
      | some r => some (r.1, r.2 ++ x)
      | none => (search p true x).map fun r => (a ++ '\n' :: r.1, r.2) := by
  have hempty : ∀ b : Bool, (b && p []) = false := fun b => by rw [hp, Bool.and_false]
  induction a generalizing start with
  | nil =>
    have hline : ∀ y, (start && p (line ('\n' :: y))) = false := fun y => hempty start
    simp only [nil_append, search, hline, hempty, Bool.false_eq_true, if_false,
      Option.map_none]
    rfl
  | cons c a ih =>
    simp only [List.cons_append, search]
    have hline : line (c :: (a ++ '\n' :: x)) = line (c :: (a ++ ['\n'])) := by
      exact (line_append (c :: a) x).trans (line_append (c :: a) []).symm
    have hbehind : behind (c :: (a ++ '\n' :: x)) = behind (c :: (a ++ ['\n'])) ++ x :=
      behind_append (c :: a) x
    rw [hline, hbehind, ih]
    by_cases hfound : (start && p (line (c :: (a ++ ['\n'])))) = true
    · rw [if_pos hfound, if_pos hfound]
    · rw [if_neg hfound, if_neg hfound]
      cases search p (c == '\n') (a ++ ['\n']) with
      | some r => rfl
      | none =>
        dsimp only [Option.map_none]
        rw [Option.map_map]
        rfl

theorem search_replace (hp : p [] = false) {a x : List Char}
    (h : search p start (a ++ '\n' :: x) = some (before, '\n' :: x)) (y : List Char) :
    search p start (a ++ '\n' :: y) = some (before, '\n' :: y) := by
  obtain ⟨found, htext, -, -⟩ := search_eq_some h
  rw [search_append hp] at h ⊢
  cases hended : search p start (a ++ ['\n']) with
  | some r =>
    rw [hended] at h
    obtain ⟨front, back⟩ := r
    obtain ⟨rfl, hback⟩ := Prod.mk.inj (Option.some.inj h)
    have hone : back = ['\n'] := append_cancel_right (hback : back ++ x = ['\n'] ++ x)
    dsimp only
    rw [hone]
    rfl
  | none =>
    -- then the line would start behind itself
    rw [hended] at h
    obtain ⟨r, -, hr⟩ := Option.map_eq_some_iff.mp h
    have hlength := congrArg List.length htext
    have hlength' := congrArg List.length (congrArg Prod.fst hr)
    simp only [length_append, length_cons] at hlength hlength'
    omega

theorem search_extend (hp : p [] = false)
    (h : search p start text = some (before, '\n' :: rest)) (x : List Char) :
    search p start (text ++ x) = some (before, '\n' :: rest ++ x) := by
  obtain ⟨found, rfl, -, -⟩ := search_eq_some h
  rw [← append_assoc] at h ⊢
  have hreplaced := search_replace hp h (rest ++ x)
  rw [append_assoc _ _ x, List.cons_append]
  exact hreplaced

end Search

end AgenticKibana.Library.Newlines
