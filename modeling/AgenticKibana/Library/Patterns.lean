import AgenticKibana.Library.TextLines
import Mathlib.Data.List.TakeWhile

/-!
# Patterns

Regular expressions as matchers that go back: a pattern lists the ways in which it matches the
beginning of a text, in the order in which they are tried, each with the groups it captures and what
is left of the text.
-/

namespace AgenticKibana.Library.Patterns

open List

abbrev Pattern := List Char → List (List (List Char) × List Char)

/-- As many characters of a class as there are, or fewer, but no fewer than `least` and no more than
`most`. -/
def many (p : Char → Bool) (least : Nat) (most : Option Nat) : Pattern := fun text =>
  let run := (text.takeWhile p).length
  let upto := match most with
    | some m => min run m
    | none => run
  ((List.range (upto + 1)).reverse.filter fun k => least ≤ k).map fun k => ([], text.drop k)

def exactly (p : Char → Bool) (n : Nat) : Pattern := many p n (some n)

/-- A word, where `same` tells whether a character of the text stands for one of the word. -/
def word (same : Char → Char → Bool) : List Char → Pattern
  | [] => fun text => [([], text)]
  | c :: cs => fun text =>
    match text with
    | [] => []
    | d :: rest => if same c d then word same cs rest else []

def group (p : Pattern) : Pattern := fun text =>
  (p text).map fun (captured, rest) => (text.take (text.length - rest.length) :: captured, rest)

def optional (p : Pattern) : Pattern := fun text => p text ++ [([], text)]

def oneOf (ps : List Pattern) : Pattern := fun text => ps.flatMap fun p => p text

def sequence : List Pattern → Pattern
  | [] => fun text => [([], text)]
  | p :: ps => fun text =>
    (p text).flatMap fun (captured, rest) =>
      (sequence ps rest).map fun (more, left) => (captured ++ more, left)

def fullMatch (p : Pattern) (text : List Char) : Option (List (List Char)) :=
  ((p text).find? fun way => way.2.isEmpty).map (·.1)

example : fullMatch (sequence [optional (word (· == ·) ['a']), group (many Char.isDigit 1 none),
    group (many Char.isDigit 1 none)]) ['a', '1', '2', '3'] = some [['1', '2'], ['3']] := by
  decide

/-- `re.split`, by a pattern without groups: `skip` more characters belong to the last match, and
`piece` is what was read since. -/
def split (p : Pattern) : Nat → List Char → List Char → List (List Char)
  | _, piece, [] => [piece]
  | skip + 1, piece, _ :: rest => split p skip piece rest
  | 0, piece, c :: rest =>
    match rest.length + 1 - (((p (c :: rest)).head?.map fun way => way.2.length).getD
        (rest.length + 1)) with
    | 0 => split p 0 (piece ++ [c]) rest
    | more + 1 => piece :: split p more [] rest

def PassesOver (q : Char → Bool) (p : Pattern) : Prop :=
  ∀ text, ∀ way ∈ p text, ∃ gone, text = gone ++ way.2 ∧ ∀ c ∈ gone, q c = true

variable {q : Char → Bool}

theorem passesOver_many {r : Char → Bool} (h : ∀ c, r c = true → q c = true) (least : Nat)
    (most : Option Nat) : PassesOver q (many r least most) := by
  intro text way hway
  unfold many at hway
  obtain ⟨k, hk, rfl⟩ := List.mem_map.mp hway
  refine ⟨text.take k, (take_append_drop k text).symm, fun c hc => h c ?_⟩
  have hrun : k ≤ (text.takeWhile r).length := by
    have hlt := mem_range.mp (mem_reverse.mp (mem_filter.mp hk).1)
    cases most with
    | none => exact Nat.lt_succ_iff.mp hlt
    | some m => exact (Nat.lt_succ_iff.mp hlt).trans (min_le_left _ _)
  have hinside : text.take k <+: text.takeWhile r :=
    prefix_of_prefix_length_le (List.take_prefix k text) (List.takeWhile_prefix r)
      ((length_take_le k text).trans hrun)
  exact mem_takeWhile_imp (hinside.subset hc)

theorem passesOver_sequence {ps : List Pattern} (h : ∀ p ∈ ps, PassesOver q p) :
    PassesOver q (sequence ps) := by
  induction ps with
  | nil =>
    intro text way hway
    obtain rfl := mem_singleton.mp hway
    exact ⟨[], rfl, by simp⟩
  | cons p ps ih =>
    intro text way hway
    obtain ⟨first, hfirst, hway⟩ := mem_flatMap.mp hway
    obtain ⟨last, hlast, rfl⟩ := List.mem_map.mp hway
    obtain ⟨gone, rfl, hgone⟩ := h p mem_cons_self text first hfirst
    obtain ⟨more, hleft, hmore⟩ :=
      ih (fun p' hp' => h p' (mem_cons_of_mem p hp')) first.2 last hlast
    refine ⟨gone ++ more, by rw [hleft, append_assoc], fun c hc => ?_⟩
    rcases mem_append.mp hc with hc | hc
    · exact hgone c hc
    · exact hmore c hc

/-- Splitting drops characters of the class and no others. -/
theorem filter_flatten_split {p : Pattern} (h : PassesOver q p) (text : List Char) :
    ∀ skip piece, (∀ c ∈ text.take skip, q c = true) →
      (split p skip piece text).flatten.filter (fun c => !q c) =
        (piece ++ text).filter fun c => !q c := by
  induction text with
  | nil =>
    intro skip piece _
    cases skip <;> simp [split]
  | cons c rest ih =>
    intro skip piece hskip
    cases skip with
    | succ skip =>
      have hc : q c = true := hskip c (by simp)
      rw [split, ih skip piece fun d hd => hskip d (by simp [hd])]
      simp [hc]
    | zero =>
      unfold split
      generalize hway : (p (c :: rest)).head? = way
      cases way with
      | none =>
        have hzero : rest.length + 1 - (rest.length + 1) = 0 := Nat.sub_self _
        simp only [Option.map_none, Option.getD_none, hzero]
        rw [ih 0 _ (by simp)]
        simp
      | some way =>
        obtain ⟨gone, hleft, hgone⟩ := h _ way (mem_of_head? hway)
        have hlength : rest.length + 1 - way.2.length = gone.length := by
          have := congrArg List.length hleft
          simp only [length_cons, length_append] at this
          omega
        simp only [Option.map_some, Option.getD_some, hlength]
        cases gone with
        | nil =>
          simp only [length_nil]
          rw [ih 0 _ (by simp)]
          simp
        | cons d gone =>
          obtain ⟨rfl, hrest⟩ := List.cons.inj hleft
          have hc : q c = true := hgone c mem_cons_self
          simp only [length_cons, flatten_cons, filter_append]
          rw [ih gone.length [] fun e he => ?_]
          · simp [hc]
          · rw [show rest = gone ++ way.2 from hrest, take_left] at he
            exact hgone e (mem_cons_of_mem c he)

end AgenticKibana.Library.Patterns
