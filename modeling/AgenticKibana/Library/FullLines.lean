import AgenticKibana.Library.Newlines
import AgenticKibana.Library.TextLines
import Mathlib.Data.List.Forall2

/-!
# The lines of a text that are not blank

A text split at `\n`, without its blank lines.  Texts joined by `\n` have the lines of both, also
after their line ends were normalised; white space at the end of a text changes the last line that
is not blank, and no other.
-/

namespace AgenticKibana.Library.FullLines

open AgenticKibana.Library.TextLines List
open AgenticKibana.Library.Newlines

variable {text : List Char}

theorem strip_eq_nil_iff : strip text = [] ↔ ∀ c ∈ text, isSpace c = true := by
  constructor
  · intro h
    unfold strip at h
    rw [reverse_eq_nil_iff, dropWhile_eq_nil_iff] at h
    have hdrop : text.dropWhile isSpace = [] := by
      by_contra hne
      obtain ⟨c, cs, hc⟩ := exists_cons_of_ne_nil hne
      have hhead : (text.dropWhile isSpace).head? = some c := by
        rw [hc]
        rfl
      have hspace : isSpace c = false := head?_dropWhile hhead
      have hin : c ∈ (text.dropWhile isSpace).reverse := by
        rw [hc]
        simp
      rw [h c hin] at hspace
      cases hspace
    exact dropWhile_eq_nil_iff.mp hdrop
  · intro h
    unfold strip
    rw [dropWhile_eq_nil_iff.mpr h]
    rfl

variable {space : List Char}

theorem strip_append_space (hspace : ∀ c ∈ space, isSpace c = true) :
    strip (text ++ space) = strip text := by
  have hempty : space.reverse.dropWhile isSpace = [] :=
    dropWhile_eq_nil_iff.mpr fun c hc => hspace c (mem_reverse.mp hc)
  unfold strip
  rw [dropWhile_append]
  by_cases htext : text.dropWhile isSpace = []
  · simp [htext, dropWhile_eq_nil_iff.mpr hspace]
  · rw [if_neg (by simpa using htext), reverse_append, dropWhile_append, hempty]
    simp

variable {c : Char}

theorem strip_cons_of_not_space (hc : isSpace c = false) (cs : List Char) :
    ∃ rest, strip (c :: cs) = c :: rest := by
  have hdrop : (c :: cs).dropWhile isSpace = c :: cs := by
    rw [dropWhile_cons, if_neg (by simp [hc])]
  obtain ⟨rest, hrest⟩ : ∃ rest, (c :: cs).reverse.dropWhile isSpace = rest ++ [c] := by
    rw [reverse_cons, dropWhile_append]
    by_cases hnil : cs.reverse.dropWhile isSpace = []
    · exact ⟨[], by simp [hnil, hc]⟩
    · exact ⟨_, by rw [if_neg (by simpa using hnil)]⟩
  refine ⟨rest.reverse, ?_⟩
  unfold strip
  rw [hdrop, hrest, reverse_append]
  rfl

theorem strip_space_cons (hc : isSpace c = true) (cs : List Char) :
    strip (c :: cs) = strip cs := by
  unfold strip
  rw [dropWhile_cons, if_pos hc]

/-! ### Lines -/

def fullLines (text : List Char) : List (List Char) :=
  (text.splitOn '\n').filter fun line => strip line ≠ []

theorem fullLines_nil : fullLines [] = [] := rfl

theorem fullLines_join (a b : List Char) :
    fullLines (a ++ '\n' :: b) = fullLines a ++ fullLines b := by
  unfold fullLines
  rw [splitOn_append_cons_self, filter_append]

theorem fullLines_of_not_mem (h : '\n' ∉ text) :
    fullLines text = if strip text = [] then [] else [text] := by
  have hsplit : text.splitOn '\n' = [text] := by
    have hlines : ∀ line ∈ [text], '\n' ∉ line := by simpa using h
    have hone := splitOn_intercalate '\n' hlines (by simp)
    simpa using hone
  unfold fullLines
  rw [hsplit]
  by_cases hblank : strip text = [] <;> simp [hblank]

theorem mem_splitOn {line : List Char} (hline : line ∈ text.splitOn '\n') (hc : c ∈ line) :
    c ∈ text ∧ c ≠ '\n' := by
  induction text generalizing line c with
  | nil =>
    rw [splitOn_nil, mem_singleton] at hline
    rw [hline] at hc
    cases hc
  | cons d text ih =>
    obtain ⟨first, rest, hsplit⟩ := exists_cons_of_ne_nil (splitOn_ne_nil '\n' text)
    have hrest : ∀ x ∈ first :: rest, ∀ c ∈ x, c ∈ d :: text ∧ c ≠ '\n' := by
      intro x hx c hc
      have hx' : x ∈ text.splitOn '\n' := by
        rw [hsplit]
        exact hx
      obtain ⟨hmem, hne⟩ := ih hx' hc
      exact ⟨mem_cons_of_mem d hmem, hne⟩
    rw [splitOn_cons_eq_if_modifyHead, hsplit] at hline
    by_cases hd : d = '\n'
    · rw [if_pos (by simp [hd])] at hline
      rcases mem_cons.mp hline with rfl | hline
      · cases hc
      · exact hrest line hline c hc
    · rw [if_neg (by simp [hd]), modifyHead_cons] at hline
      rcases mem_cons.mp hline with rfl | hline
      · rcases mem_cons.mp hc with rfl | hc
        · exact ⟨mem_cons_self, hd⟩
        · exact hrest first mem_cons_self c hc
      · exact hrest line (mem_cons_of_mem _ hline) c hc

theorem splitOn_concat (hc : c ≠ '\n') (text : List Char) :
    ∃ init last, text.splitOn '\n' = init ++ [last] ∧
      (text ++ [c]).splitOn '\n' = init ++ [last ++ [c]] := by
  induction text with
  | nil =>
    refine ⟨[], [], rfl, ?_⟩
    rw [nil_append, splitOn_cons_eq_if_modifyHead]
    simp [hc]
  | cons d text ih =>
    obtain ⟨init, last, htext, hmore⟩ := ih
    rw [cons_append, splitOn_cons_eq_if_modifyHead, splitOn_cons_eq_if_modifyHead,
      htext, hmore]
    by_cases hd : d = '\n'
    · exact ⟨[] :: init, last, by simp [hd], by simp [hd]⟩
    · cases init with
      | nil => exact ⟨[], d :: last, by simp [hd], by simp [hd]⟩
      | cons line init => exact ⟨(d :: line) :: init, last, by simp [hd], by simp [hd]⟩

def Cut (short long : List Char) : Prop :=
  ∃ space, (∀ c ∈ space, isSpace c = true) ∧ long = short ++ space

theorem Cut.refl (line : List Char) : Cut line line :=
  ⟨[], fun _ hc => (nomatch hc), (append_nil line).symm⟩

theorem Cut.strip_eq {short long : List Char} (h : Cut short long) : strip long = strip short := by
  obtain ⟨space, hspace, rfl⟩ := h
  exact strip_append_space hspace

theorem Cut.trans {a b c : List Char} (hab : Cut a b) (hbc : Cut b c) : Cut a c := by
  obtain ⟨v, hv, rfl⟩ := hab
  obtain ⟨w, hw, rfl⟩ := hbc
  refine ⟨v ++ w, ?_, append_assoc a v w⟩
  intro x hx
  rcases mem_append.mp hx with hx | hx
  · exact hv x hx
  · exact hw x hx

theorem Cut.word {word short long : List Char} (h : Cut short long) (hword : word <+: long)
    (hfull : strip (long.drop word.length) ≠ []) :
    word <+: short ∧ strip (short.drop word.length) = strip (long.drop word.length) := by
  obtain ⟨space, hspace, rfl⟩ := h
  have hlength : word.length ≤ short.length := by
    by_contra hlt
    apply hfull
    rw [drop_append, drop_eq_nil_of_le (by omega), nil_append]
    exact strip_eq_nil_iff.mpr fun c hc => hspace c (mem_of_mem_drop hc)
  refine ⟨prefix_of_prefix_length_le hword (prefix_append _ _) hlength, ?_⟩
  rw [drop_append_of_le_length hlength, strip_append_space hspace]

theorem cut_strip (h : ∀ c, text.head? = some c → isSpace c = false) : Cut (strip text) text := by
  have hsplit := takeWhile_append_dropWhile (p := isSpace) (l := text.reverse)
  refine ⟨(text.reverse.takeWhile isSpace).reverse,
    fun c hc => mem_takeWhile_imp (mem_reverse.mp hc), ?_⟩
  unfold strip
  rw [dropWhile_of_head h, ← reverse_append, hsplit, reverse_reverse]

theorem Cut.forall₂_trans {a b c : List (List Char)} (hab : List.Forall₂ Cut a b)
    (hbc : List.Forall₂ Cut b c) : List.Forall₂ Cut a c := by
  induction hab generalizing c with
  | nil => exact hbc
  | cons hcut _ ih =>
    cases hbc with
    | cons hcut' hrest => exact .cons (hcut.trans hcut') (ih hrest)

theorem fullLines_concat_space (hc : isSpace c = true) (text : List Char) :
    List.Forall₂ Cut (fullLines text) (fullLines (text ++ [c])) := by
  have hrefl : ∀ lines : List (List Char), List.Forall₂ Cut lines lines := fun lines =>
    forall₂_same.mpr fun line _ => Cut.refl line
  by_cases hline : c = '\n'
  · rw [hline, fullLines_join, fullLines_nil, append_nil]
    exact hrefl _
  · obtain ⟨init, last, htext, hmore⟩ := splitOn_concat hline text
    have hcut : Cut last (last ++ [c]) :=
      ⟨[c], fun d hd => by rw [mem_singleton.mp hd]; exact hc, rfl⟩
    unfold fullLines
    rw [htext, hmore, filter_append, filter_append]
    refine rel_append (hrefl _) ?_
    by_cases hblank : strip last = []
    · simp [hcut.strip_eq, hblank]
    · simp [hcut.strip_eq, hblank, hcut]

theorem fullLines_append_space (hspace : ∀ c ∈ space, isSpace c = true) :
    List.Forall₂ Cut (fullLines text) (fullLines (text ++ space)) := by
  induction space using List.reverseRecOn with
  | nil =>
    rw [append_nil]
    exact forall₂_same.mpr fun line _ => Cut.refl line
  | append_singleton space c ih =>
    rw [← append_assoc]
    have hfirst := ih fun d hd => hspace d (mem_append_left _ hd)
    have hlast := fullLines_concat_space (hspace c (mem_append_right _ (by simp)))
      (text ++ space)
    exact Cut.forall₂_trans hfirst hlast

theorem fullLines_strip (h : ∀ c, text.head? = some c → isSpace c = false) :
    List.Forall₂ Cut (fullLines (strip text)) (fullLines text) := by
  obtain ⟨space, hspace, htext⟩ := cut_strip h
  have hcut : List.Forall₂ Cut (fullLines (strip text)) (fullLines (strip text ++ space)) :=
    fullLines_append_space hspace
  rwa [← htext] at hcut

theorem normalise_cons (hc : c ≠ '\r') (cs : List Char) :
    normalise (c :: cs) = c :: normalise cs := by
  unfold normalise
  rw [joinCrLf, if_neg (fun h => hc h.1), map_cons, if_neg hc]

/-- Texts that are joined by `\n`, after their line ends were normalised: a `\r` before the `\n`
becomes part of it. -/
theorem fullLines_normalise_join (a b : List Char) :
    fullLines (normalise (a ++ '\n' :: b)) =
      fullLines (normalise a) ++ fullLines (normalise b) := by
  have hnewline : ∀ cs, normalise ('\n' :: cs) = '\n' :: normalise cs :=
    normalise_cons (by decide)
  by_cases hlast : a.getLast? = some '\r'
  · obtain ⟨front, rfl⟩ := getLast?_eq_some_iff.mp hlast
    have hseam : ∀ rest : List Char, ('\r' :: rest).head? ≠ some '\n' := by
      intro rest h
      exact absurd (Option.some.inj h) (by decide)
    have hpair : normalise ('\r' :: '\n' :: b) = '\n' :: normalise b := by
      rw [← hnewline]
      rfl
    rw [append_assoc, singleton_append, normalise_append (.inr (hseam _)),
      normalise_append (.inr (hseam _)), hpair, show normalise ['\r'] = '\n' :: [] from rfl,
      fullLines_join, fullLines_join, fullLines_nil, append_nil]
  · rw [normalise_append (.inl hlast), hnewline, fullLines_join]

theorem forall_mem_normalise {p : Char → Prop} (hp : p '\n') (h : ∀ c ∈ text, p c) :
    ∀ c ∈ normalise text, p c := by
  have hjoin : ∀ text : List Char, ∀ c ∈ joinCrLf text, c ∈ text := by
    intro text
    induction text with
    | nil => exact fun _ hc => hc
    | cons d ds ih =>
      intro c hc
      rw [joinCrLf] at hc
      split at hc
      · exact mem_cons_of_mem d (ih c hc)
      · rcases mem_cons.mp hc with rfl | hc
        · exact mem_cons_self
        · exact mem_cons_of_mem d (ih c hc)
  intro c hc
  obtain ⟨d, hd, rfl⟩ := mem_map.mp hc
  split
  · exact hp
  · exact h d (hjoin text d hd)

theorem length_normalise_le (text : List Char) : (normalise text).length ≤ text.length := by
  have hjoin : (joinCrLf text).length ≤ text.length := by
    induction text with
    | nil => exact Nat.le_refl 0
    | cons c cs ih =>
      rw [joinCrLf]
      split
      · exact Nat.le_succ_of_le ih
      · exact Nat.succ_le_succ ih
  unfold normalise
  rw [length_map]
  exact hjoin

theorem length_strip_le (text : List Char) : (strip text).length ≤ text.length := by
  unfold strip
  rw [length_reverse]
  calc ((text.dropWhile isSpace).reverse.dropWhile isSpace).length
      ≤ (text.dropWhile isSpace).reverse.length := (dropWhile_sublist _).length_le
    _ = (text.dropWhile isSpace).length := length_reverse
    _ ≤ text.length := (dropWhile_sublist _).length_le

end AgenticKibana.Library.FullLines
