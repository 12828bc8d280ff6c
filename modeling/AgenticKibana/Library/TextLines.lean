import Mathlib.Data.List.Basic
import Mathlib.Data.List.Infix

/-!
# Bytes to text to lines

A lenient UTF-8 decoder that replaces what is malformed, and the splitting of a text into
lines, both as machines that read one byte or character at a time.  Cut where the decoder is
idle and the text before ends a line, bytes decode and split piece by piece, up to an empty
line where `\\r` and `\\n` were cut apart.
-/

namespace AgenticKibana.Library.TextLines

open List

/-- Texts are compared character by character. -/
instance lawfulBEqText : LawfulBEq (List Char) := inferInstance

/-! ### UTF-8 -/

/-- Continuation bytes that are awaited: the first one lies between two bounds. -/
structure Pending where
  code : Nat
  more : Nat
  low : Nat
  high : Nat
  deriving DecidableEq

structure Decoder where
  text : List Char := []
  pending : Option Pending := none
  deriving DecidableEq

def replacement : Char := '\uFFFD'

/-- A byte that begins a sequence. -/
def Decoder.lead (text : List Char) (b : Nat) : Decoder :=
  if b < 0x80 then ⟨text ++ [Char.ofNat b], none⟩
  else if 0xC2 ≤ b ∧ b ≤ 0xDF then ⟨text, some ⟨b - 0xC0, 1, 0x80, 0xBF⟩⟩
  else if b = 0xE0 then ⟨text, some ⟨0, 2, 0xA0, 0xBF⟩⟩
  else if b = 0xED then ⟨text, some ⟨0xD, 2, 0x80, 0x9F⟩⟩
  else if 0xE1 ≤ b ∧ b ≤ 0xEF then ⟨text, some ⟨b - 0xE0, 2, 0x80, 0xBF⟩⟩
  else if b = 0xF0 then ⟨text, some ⟨0, 3, 0x90, 0xBF⟩⟩
  else if 0xF1 ≤ b ∧ b ≤ 0xF3 then ⟨text, some ⟨b - 0xF0, 3, 0x80, 0xBF⟩⟩
  else if b = 0xF4 then ⟨text, some ⟨4, 3, 0x80, 0x8F⟩⟩
  else ⟨text ++ [replacement], none⟩

/-- Read a byte: a sequence that breaks off is replaced as a whole. -/
def Decoder.feed (d : Decoder) (b : UInt8) : Decoder :=
  match d.pending with
  | none => Decoder.lead d.text b.toNat
  | some p =>
    if p.low ≤ b.toNat ∧ b.toNat ≤ p.high then
      let code := p.code * 64 + (b.toNat - 0x80)
      if p.more ≤ 1 then ⟨d.text ++ [Char.ofNat code], none⟩
      else ⟨d.text, some ⟨code, p.more - 1, 0x80, 0xBF⟩⟩
    else Decoder.lead (d.text ++ [replacement]) b.toNat

def decoder (bytes : List UInt8) : Decoder := bytes.foldl Decoder.feed {}

/-- `bytes.decode("utf-8", errors="replace")`. -/
def decode (bytes : List UInt8) : List Char :=
  let d := decoder bytes
  if d.pending.isSome then d.text ++ [replacement] else d.text

def Whole (bytes : List UInt8) : Prop := (decoder bytes).pending = none

theorem lead_append (text text' : List Char) (b : Nat) :
    Decoder.lead (text ++ text') b =
      ⟨text ++ (Decoder.lead text' b).text, (Decoder.lead text' b).pending⟩ := by
  unfold Decoder.lead
  repeat' split
  all_goals simp only [append_assoc]

theorem feed_append (text : List Char) (d : Decoder) (b : UInt8) :
    Decoder.feed ⟨text ++ d.text, d.pending⟩ b =
      ⟨text ++ (d.feed b).text, (d.feed b).pending⟩ := by
  unfold Decoder.feed
  dsimp only
  cases d.pending with
  | none => exact lead_append _ _ _
  | some p =>
    dsimp only
    split
    · split
      · simp only [append_assoc]
      · rfl
    · rw [append_assoc]
      exact lead_append _ _ _

theorem foldl_feed_append (text : List Char) (d : Decoder) (bytes : List UInt8) :
    bytes.foldl Decoder.feed ⟨text ++ d.text, d.pending⟩ =
      ⟨text ++ (bytes.foldl Decoder.feed d).text, (bytes.foldl Decoder.feed d).pending⟩ := by
  induction bytes generalizing d with
  | nil => rfl
  | cons b bytes ih =>
    rw [foldl_cons, foldl_cons, feed_append]
    exact ih (d.feed b)

variable {a : List UInt8}

theorem decoder_append (h : Whole a) (b : List UInt8) :
    decoder (a ++ b) = ⟨(decoder a).text ++ (decoder b).text, (decoder b).pending⟩ := by
  have hidle : decoder a = ⟨(decoder a).text ++ [], none⟩ := by
    rw [append_nil, ← show (decoder a).pending = none from h]
  have hfold : decoder (a ++ b) = b.foldl Decoder.feed (decoder a) := foldl_append
  rw [hfold, congrArg (fun d => b.foldl Decoder.feed d) hidle]
  exact foldl_feed_append (decoder a).text ⟨[], none⟩ b

theorem decode_append (h : Whole a) (b : List UInt8) : decode (a ++ b) = decode a ++ decode b := by
  unfold decode
  dsimp only
  rw [decoder_append h, show (decoder a).pending = none from h]
  dsimp only
  split
  · rw [Option.isSome_none, if_neg Bool.false_ne_true, append_assoc]
  · rfl

/-! ### Lines -/

/-- The line boundaries of `str.splitlines`, but for `\\r\\n`. -/
def isBreak (c : Char) : Bool :=
  ['\n', '\r', '\x0b', '\x0c', '\x1c', '\x1d', '\x1e', '\u0085', '\u2028', '\u2029'].contains c

/-- The lines that ended, the one that is being read, and whether a `\\r` was just read. -/
structure Splitter where
  done : List (List Char) := []
  current : List Char := []
  cr : Bool := false
  deriving DecidableEq

def Splitter.feed (s : Splitter) (c : Char) : Splitter :=
  if s.cr = true ∧ c = '\n' then ⟨s.done, s.current, false⟩
  else if isBreak c then ⟨s.done ++ [s.current], [], c = '\r'⟩
  else ⟨s.done, s.current ++ [c], false⟩

def splitter (text : List Char) : Splitter := text.foldl Splitter.feed {}

def splitLines (text : List Char) : List (List Char) :=
  let s := splitter text
  if s.current = [] then s.done else s.done ++ [s.current]

def endedLines (text : List Char) : List (List Char) := (splitter text).done

def Ended (text : List Char) : Prop := (splitter text).current = []

variable {text : List Char}

theorem splitLines_of_ended (h : Ended text) : splitLines text = endedLines text := by
  unfold splitLines endedLines
  dsimp only
  rw [show (splitter text).current = [] from h, if_pos rfl]

theorem ended_nil : Ended [] := rfl

variable {c : Char}

theorem not_ended_concat (hc : isBreak c = false) : ¬ Ended (text ++ [c]) := by
  have hfeed : splitter (text ++ [c]) = (splitter text).feed c := by
    unfold splitter
    rw [foldl_append]
    rfl
  have hbreak : ¬ c = '\n' := by
    intro h
    rw [h] at hc
    exact absurd hc (by decide)
  unfold Ended
  rw [hfeed]
  unfold Splitter.feed
  rw [if_neg fun h => hbreak h.2, if_neg (by rw [hc]; exact Bool.false_ne_true)]
  exact append_ne_nil_of_right_ne_nil _ (cons_ne_nil _ _)

theorem whole_of_ended {bytes : List UInt8} (h : Ended (decode bytes)) : Whole bytes := by
  unfold decode at h
  dsimp only at h
  split at h
  · exact absurd h (not_ended_concat (by decide))
  · rename_i hpending
    exact Option.not_isSome_iff_eq_none.mp hpending

theorem splitFeed_append (lines : List (List Char)) (s : Splitter) (c : Char) :
    Splitter.feed ⟨lines ++ s.done, s.current, s.cr⟩ c =
      ⟨lines ++ (s.feed c).done, (s.feed c).current, (s.feed c).cr⟩ := by
  unfold Splitter.feed
  dsimp only
  split
  · rfl
  split
  · rw [append_assoc]
  · rfl

theorem foldl_splitFeed_append (lines : List (List Char)) (s : Splitter) (text : List Char) :
    text.foldl Splitter.feed ⟨lines ++ s.done, s.current, s.cr⟩ =
      ⟨lines ++ (text.foldl Splitter.feed s).done, (text.foldl Splitter.feed s).current,
        (text.foldl Splitter.feed s).cr⟩ := by
  induction text generalizing s with
  | nil => rfl
  | cons c text ih =>
    rw [foldl_cons, foldl_cons, splitFeed_append]
    exact ih (s.feed c)

variable {keep : List Char → Bool}

theorem foldl_splitFeed_cr (hkeep : keep [] = false) (cr : Bool) (text : List Char) :
    (text.foldl Splitter.feed ⟨[], [], cr⟩).done.filter keep = (splitter text).done.filter keep ∧
      (text.foldl Splitter.feed ⟨[], [], cr⟩).current = (splitter text).current := by
  cases text with
  | nil => exact ⟨rfl, rfl⟩
  | cons c text =>
    have hstep : ∀ s, (c :: text).foldl Splitter.feed s = text.foldl Splitter.feed (s.feed c) :=
      fun _ => rfl
    unfold splitter
    rw [hstep, hstep]
    by_cases hc : cr = true ∧ c = '\n'
    · obtain ⟨rfl, rfl⟩ := hc
      have hempty : Splitter.feed {} '\n' = ⟨[[]] ++ [], [], false⟩ := rfl
      have hhidden : Splitter.feed ⟨[], [], true⟩ '\n' = ⟨[], [], false⟩ := rfl
      rw [hempty, hhidden, foldl_splitFeed_append [[]] ⟨[], [], false⟩ text]
      refine ⟨?_, rfl⟩
      dsimp only
      rw [filter_append, filter_cons_of_neg (by simp [hkeep]), filter_nil,
        nil_append]
    · have hsame : Splitter.feed ⟨[], [], cr⟩ c = Splitter.feed {} c := by
        have hfresh : ¬((false : Bool) = true ∧ c = '\n') := fun h => Bool.false_ne_true h.1
        unfold Splitter.feed
        dsimp only
        rw [if_neg hc, if_neg hfresh]
      rw [hsame]
      exact ⟨rfl, rfl⟩

/-- **Splitting piece by piece**: a text that ends where a line ends, and what follows it, have the
lines of both; but for an empty one where the second begins. -/
theorem endedLines_append (hkeep : keep [] = false) {a : List Char} (h : Ended a) (b : List Char) :
    (endedLines (a ++ b)).filter keep = (endedLines a).filter keep ++ (endedLines b).filter keep ∧
      (Ended (a ++ b) ↔ Ended b) := by
  have hfold : splitter (a ++ b) = b.foldl Splitter.feed (splitter a) := foldl_append
  have hstate : splitter a = ⟨(splitter a).done ++ [], [], (splitter a).cr⟩ := by
    rw [append_nil, ← show (splitter a).current = [] from h]
  have happend := foldl_splitFeed_append (splitter a).done ⟨[], [], (splitter a).cr⟩ b
  rw [← hstate, ← hfold] at happend
  obtain ⟨hdone, hcurrent⟩ := foldl_splitFeed_cr hkeep (splitter a).cr b
  unfold endedLines Ended
  rw [happend]
  dsimp only
  rw [filter_append, hdone, hcurrent]
  exact ⟨rfl, Iff.rfl⟩

/-- `str.isspace` of a character. -/
def isSpace (c : Char) : Bool :=
  let n := c.toNat
  (0x9 ≤ n && n ≤ 0xD) || (0x1C ≤ n && n ≤ 0x20) || n == 0x85 || n == 0xA0 || n == 0x1680 ||
    (0x2000 ≤ n && n ≤ 0x200A) || n == 0x2028 || n == 0x2029 || n == 0x202F || n == 0x205F ||
    n == 0x3000

theorem isSpace_of_isBreak (h : isBreak c = true) : isSpace c = true := by
  have hmem := contains_iff_mem.mp h
  simp only [mem_cons, not_mem_nil, or_false] at hmem
  rcases hmem with rfl | rfl | rfl | rfl | rfl | rfl | rfl | rfl | rfl | rfl
  all_goals rfl

def strip (text : List Char) : List Char :=
  ((text.dropWhile isSpace).reverse.dropWhile isSpace).reverse

def Trimmed (text : List Char) : Prop :=
  (∀ c, text.head? = some c → isSpace c = false) ∧
    ∀ c, text.getLast? = some c → isSpace c = false

variable {p : Char → Bool}

theorem dropWhile_of_head (h : ∀ c, text.head? = some c → p c = false) :
    text.dropWhile p = text := by
  cases text with
  | nil => rfl
  | cons c text => rw [dropWhile_cons, if_neg (by rw [h c rfl]; exact Bool.false_ne_true)]

theorem strip_of_trimmed (h : Trimmed text) : strip text = text := by
  unfold strip
  rw [dropWhile_of_head h.1, dropWhile_of_head, reverse_reverse]
  intro c hc
  rw [head?_reverse] at hc
  exact h.2 c hc

theorem head?_dropWhile (h : (text.dropWhile p).head? = some c) : p c = false := by
  have hnot := head?_dropWhile_not p text
  rw [h] at hnot
  simpa using hnot

theorem trimmed_strip (text : List Char) : Trimmed (strip text) := by
  constructor
  · intro c hc
    rw [strip, head?_reverse] at hc
    have hsuffix := dropWhile_suffix (l := (text.dropWhile isSpace).reverse) isSpace
    have hlast : (text.dropWhile isSpace).reverse.getLast? = some c := by
      obtain ⟨before, hbefore⟩ := hsuffix
      rw [← hbefore, getLast?_append, hc]
      rfl
    rw [getLast?_reverse] at hlast
    exact head?_dropWhile hlast
  · intro c hc
    rw [strip, getLast?_reverse] at hc
    exact head?_dropWhile hc

end AgenticKibana.Library.TextLines
