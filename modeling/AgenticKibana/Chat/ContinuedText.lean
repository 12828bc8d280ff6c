import AgenticKibana.Chat.JsonDecoder

/-!
# Continued answers

An answer that was cut off is continued by another reply.  What is appended is the reply without a
header that it starts again, and without the words that the answer already ends with.  The streamer
decides this on the first characters; what it streams is what is stored if everything that is
dropped has arrived when it decides.
-/

namespace AgenticKibana.Chat

open AgenticKibana.Library
open AgenticKibana.Library.TextLines (isSpace strip)
open AgenticKibana.Library.Newlines (normalise push flush Passed)

/-! ### Stitching -/

def overlapMinChars : Nat := 8
def overlapMaxChars : Nat := 400
def continuationHeaderWindow : Nat := 8000

def lstrip (text : Text) : Text := text.dropWhile isSpace

/-- `text.lstrip().startswith(("\x7b", "-", "`"))` -/
def Opens (text : Text) : Prop :=
  (lstrip text).head? = some '\x7b' ∨ (lstrip text).head? = some '-' ∨
    (lstrip text).head? = some '`'

instance (text : Text) : Decidable (Opens text) := inferInstanceAs (Decidable (_ ∨ _ ∨ _))

section Stitch

variable (d : Decoder)

def stripContinuationHeader (text : Text) : Text :=
  if Opens text then
    let window := text.take continuationHeaderWindow
    match searchSeparator window with
    | none => text
    | some (headerText, behind) =>
      let before := strip headerText
      if before ≠ [] ∧ (loadObject d before).isNone then text
      else dropNewline (text.drop (window.length - behind.length))
  else text

/-- The loop of `_overlap`, from a size downwards. -/
def overlapFrom (previous addition : Text) : Nat → Nat
  | 0 => 0
  | size + 1 =>
    if size + 1 < overlapMinChars then 0
    else if endsWith previous (addition.take (size + 1)) then size + 1
    else overlapFrom previous addition size

def overlap (previous addition : Text) : Nat :=
  overlapFrom previous addition (min (min previous.length addition.length) overlapMaxChars)

def stitchContinuation (previous addition : Text) : Text :=
  let text := stripContinuationHeader d (normalise addition)
  text.drop (overlap previous text)

/-! ### What may open a header -/

def dashesThen (text : Text) : Bool × Text :=
  let count := ((text.take 3).takeWhile fun c => c == '-').length
  if count < 3 then (decide (count = text.length), []) else (true, text.drop 3)

def commonLength : Text → Text → Nat
  | a :: as, b :: bs => if a = b then commonLength as bs + 1 else 0
  | _, _ => 0

def mayBeSeparatorLine (line : Text) (complete : Bool) : Bool :=
  if complete then isSeparator line
  else
    let (ok, rest) := dashesThen (line.dropWhile isBlank)
    if ok then
      let rest := rest.dropWhile isBlank
      let word := commonLength rest separatorWord
      if word < rest.length ∧ word < separatorWord.length then false
      else if word < separatorWord.length then true
      else
        let (ok, rest) := dashesThen ((rest.drop word).dropWhile isBlank)
        ok && rest.all isBlank
    else false

/-- `text.split("\n")` -/
def splitNewline (text : Text) : List Text :=
  text.foldr (fun c lines =>
    if c = '\n' then [] :: lines
    else match lines with
      | line :: lines => (c :: line) :: lines
      | [] => [[c]]) [[]]

def skipBlankLines : List Text → List Text
  | [] => []
  | [line] => [line]
  | line :: next :: lines =>
    if strip line = [] then skipBlankLines (next :: lines) else line :: next :: lines

/-- `_FENCE_OPEN_LINE_RE` on a whole text. -/
def isFenceOpenLine (text : Text) : Bool :=
  startsWith text fence && (afterFenceWord (text.drop fence.length)).isEmpty

/-- `_FENCE_OPEN_PREFIX_RE` on a whole text. -/
def isFenceOpenPrefix (text : Text) : Bool :=
  text == ['`'] || text == ['`', '`'] || isFenceOpenLine text

def mayOpenHeader (text : Text) : Bool :=
  match skipBlankLines (splitNewline text) with
  | [] => false
  | first :: later =>
    let complete := !later.isEmpty
    let head := lstrip first
    match head.head? with
    | none => false
    | some c =>
      if c = '\x7b' then true
      else if c = '`' then
        if !complete then isFenceOpenPrefix head
        else if isFenceOpenLine head then
          match skipBlankLines later with
          | [] => true
          | next :: _ => (lstrip next).isEmpty || (lstrip next).head? == some '\x7b'
        else false
      else if c = '-' then mayBeSeparatorLine first complete
      else false

structure ContinuationStreamer where
  previous : Text
  buffer : Text := []
  crPending : Bool := false
  decided : Bool := false

namespace ContinuationStreamer

def ready (buffer : Text) : Bool :=
  if mayOpenHeader buffer ∧ buffer.length < continuationHeaderWindow then
    match searchSeparator buffer with
    | some (_, behind) => !behind.isEmpty
    | none => false
  else overlapMaxChars ≤ buffer.length

def feed (s : ContinuationStreamer) (delta : Text) : Text × ContinuationStreamer :=
  if delta = [] then ([], s)
  else
    let text := (push s.crPending delta).1
    let s := { s with crPending := (push s.crPending delta).2 }
    if s.decided then (text, s)
    else
      let s := { s with buffer := s.buffer ++ text }
      if ready s.buffer then
        (stitchContinuation d s.previous s.buffer, { s with decided := true })
      else ([], s)

def finish (s : ContinuationStreamer) : Text :=
  if s.decided then flush s.crPending
  else stitchContinuation d s.previous (s.buffer ++ flush s.crPending)

def run (s : ContinuationStreamer) : List Text → Text
  | [] => s.finish d
  | delta :: deltas => (s.feed d delta).1 ++ run (s.feed d delta).2 deltas

end ContinuationStreamer

def continuedText (previous : Text) (deltas : List Text) : Text :=
  ContinuationStreamer.run d ⟨previous, [], false, false⟩ deltas

end Stitch

open List

/-! ### The header -/

section Header

variable (d : Decoder)

def restart (text : Text) : Option Nat :=
  if Opens text then
    match searchSeparator (text.take continuationHeaderWindow) with
    | none => none
    | some (headerText, behind) =>
      if strip headerText ≠ [] ∧ (loadObject d (strip headerText)).isNone then none
      else some ((text.take continuationHeaderWindow).length - behind.length)
  else none

def headerLength (text : Text) : Nat :=
  match restart d text with
  | none => 0
  | some stop => stop + if text[stop]? = some '\n' then 1 else 0

def dropped (previous text : Text) : Nat :=
  headerLength d text + overlap previous (text.drop (headerLength d text))

variable {d} {text held rest previous : Text} {stop : Nat}

theorem dropNewline_drop (text : Text) (stop : Nat) :
    dropNewline (text.drop stop) = text.drop (stop + if text[stop]? = some '\n' then 1 else 0) := by
  unfold dropNewline
  rw [head?_drop]
  split
  · rw [tail_drop]
  · rfl

theorem stripContinuationHeader_eq (text : Text) :
    stripContinuationHeader d text = text.drop (headerLength d text) := by
  unfold stripContinuationHeader headerLength restart
  dsimp only
  by_cases hopens : Opens text
  · rw [if_pos hopens, if_pos hopens]
    cases searchSeparator (text.take continuationHeaderWindow) with
    | none => rfl
    | some r =>
      dsimp only
      by_cases hbad : strip r.1 ≠ [] ∧ (loadObject d (strip r.1)).isNone = true
      · rw [if_pos hbad, if_pos hbad]
        rfl
      · rw [if_neg hbad, if_neg hbad]
        exact dropNewline_drop _ _
  · rw [if_neg hopens, if_neg hopens]
    rfl

theorem stitchContinuation_eq (previous addition : Text) :
    stitchContinuation d previous addition =
      (normalise addition).drop (dropped d previous (normalise addition)) := by
  unfold stitchContinuation dropped
  dsimp only
  rw [stripContinuationHeader_eq, drop_drop]

theorem restart_eq_some (h : restart d text = some stop) : ∃ headerText found behind,
    Opens text ∧ searchSeparator (text.take continuationHeaderWindow) = some (headerText, behind) ∧
      text.take continuationHeaderWindow = (headerText ++ found) ++ behind ∧
      isSeparator found = true ∧ (behind = [] ∨ ∃ more, behind = '\n' :: more) ∧
      ¬ (strip headerText ≠ [] ∧ (loadObject d (strip headerText)).isNone = true) ∧
      stop = (headerText ++ found).length := by
  unfold restart at h
  split at h
  · rename_i hopens
    split at h
    · cases h
    · rename_i headerText behind hsearch
      split at h
      · cases h
      · rename_i hgood
        obtain ⟨found, htext, hfound, hbehind⟩ := Newlines.search_eq_some hsearch
        rw [← append_assoc] at htext
        refine ⟨headerText, found, behind, hopens, hsearch, htext, hfound, hbehind, hgood, ?_⟩
        have hlength := congrArg List.length htext
        rw [length_append] at hlength
        have hstop := Option.some.inj h
        omega
  · cases h

theorem restart_of_search {headerText behind : Text} (hopens : Opens text)
    (hsearch : searchSeparator (text.take continuationHeaderWindow) = some (headerText, behind))
    (hgood : ¬ (strip headerText ≠ [] ∧ (loadObject d (strip headerText)).isNone = true)) :
    restart d text = some ((text.take continuationHeaderWindow).length - behind.length) := by
  unfold restart
  rw [if_pos hopens, hsearch]
  dsimp only
  rw [if_neg hgood]

theorem dash_mem_of_isSeparator {line : Text} (h : isSeparator line = true) : '-' ∈ line := by
  unfold isSeparator afterBlank at h
  by_cases hdash : startsWith (line.dropWhile isBlank) dashes = true
  · have hmem : '-' ∈ line.dropWhile isBlank :=
      (List.isPrefixOf_iff_prefix.mp hdash).subset (by decide)
    exact (dropWhile_sublist _).subset hmem
  · dsimp only at h
    rw [if_neg hdash] at h
    cases h

theorem lstrip_append (h : lstrip held ≠ []) : lstrip (held ++ rest) = lstrip held ++ rest := by
  unfold lstrip at h ⊢
  rw [dropWhile_append, if_neg]
  rw [List.isEmpty_iff]
  exact h

theorem lstrip_ne_nil {c : Char} (hmem : c ∈ held) (hc : isSpace c = false) : lstrip held ≠ [] := by
  intro hnil
  unfold lstrip at hnil
  rw [dropWhile_eq_nil_iff] at hnil
  rw [hnil c hmem] at hc
  cases hc

theorem opens_append (h : lstrip held ≠ []) : Opens (held ++ rest) ↔ Opens held := by
  unfold Opens
  rw [lstrip_append h, head?_append_of_ne_nil _ h]

theorem Opens.ne_nil (h : Opens held) : lstrip held ≠ [] := by
  intro hnil
  unfold Opens at h
  rw [hnil] at h
  rcases h with h | h | h <;> cases h

theorem restart_held (h : restart d (held ++ rest) = some stop)
    (hle : headerLength d (held ++ rest) ≤ held.length) : restart d held = some stop := by
  obtain ⟨headerText, found, behind, hopens, hsearch, htext, hfound, hbehind, hgood, hstop⟩ :=
    restart_eq_some h
  have hlength : headerLength d (held ++ rest) =
      stop + if (held ++ rest)[stop]? = some '\n' then 1 else 0 := by
    unfold headerLength
    rw [h]
  have hstopLe : stop ≤ held.length := by omega
  -- the separator line is in what has arrived
  have hline : (headerText ++ found) <+: held := by
    have hwindow : (headerText ++ found) <+: held ++ rest := by
      have happend : (headerText ++ found) <+: (held ++ rest).take continuationHeaderWindow :=
        ⟨behind, htext.symm⟩
      exact happend.trans (List.take_prefix _ _)
    refine prefix_of_prefix_length_le hwindow (prefix_append _ _) ?_
    omega
  have hdash : '-' ∈ held :=
    hline.subset (mem_append_right _ (dash_mem_of_isSeparator hfound))
  have hopensHeld : Opens held := (opens_append (lstrip_ne_nil hdash (by decide))).mp hopens
  by_cases hlong : continuationHeaderWindow ≤ held.length
  · -- the whole window has arrived
    rw [take_append_of_le_length hlong] at hsearch htext
    rw [restart_of_search hopensHeld hsearch hgood, htext, length_append, hstop]
    congr 1
    omega
  · have htake : held.take continuationHeaderWindow = held :=
      take_of_length_le (by omega)
    rw [take_append, htake] at hsearch htext
    generalize hx : rest.take (continuationHeaderWindow - held.length) = x at hsearch htext
    have hsame : searchSeparator held = some (headerText, held.drop stop) := by
      rcases hbehind with rfl | ⟨more, rfl⟩
      · -- the match ends the window, so nothing else has come
        have hnil : x = [] := by
          have hlen := congrArg List.length htext
          rw [append_nil, length_append, ← hstop] at hlen
          exact eq_nil_of_length_eq_zero (by omega)
        rw [hnil, append_nil] at hsearch htext
        rw [hsearch, drop_eq_nil_of_le]
        rw [htext, append_nil, hstop]
      · have hnewline : (held ++ rest)[stop]? = some '\n' := by
          have hx' : (held ++ x)[stop]? = some '\n' := by
            rw [htext, hstop, List.getElem?_append_right le_rfl, Nat.sub_self]
            rfl
          have hpre : held ++ x <+: held ++ rest := by
            rw [← hx]
            exact (prefix_append_right_inj _).mpr (List.take_prefix _ _)
          obtain ⟨tail, htail⟩ := hpre
          rw [← htail, List.getElem?_append_left]
          · exact hx'
          · exact (List.getElem?_eq_some_iff.mp hx').1
        rw [hnewline, if_pos rfl] at hlength
        obtain ⟨y, hy⟩ := hline
        have hylen : 0 < y.length := by
          have hlen := congrArg List.length hy
          rw [length_append] at hlen
          omega
        have hsplit : y ++ x = '\n' :: more := by
          rw [← hy, append_assoc] at htext
          exact append_cancel_left htext
        cases y with
        | nil => cases hylen
        | cons c y =>
          obtain ⟨rfl, rfl⟩ := List.cons.inj hsplit
          rw [← hy, append_assoc] at hsearch
          have hreplaced := Newlines.search_replace isSeparator_nil hsearch y
          rw [hy] at hreplaced
          unfold searchSeparator
          rw [hreplaced, hstop, ← hy, drop_left]
    have hsearchHeld : searchSeparator (held.take continuationHeaderWindow) =
        some (headerText, held.drop stop) := by
      rw [htake]
      exact hsame
    rw [restart_of_search hopensHeld hsearchHeld hgood, htake, length_drop]
    congr 1
    omega

theorem restart_whole (rest : Text) (h : restart d held = some stop) (hlt : stop < held.length) :
    restart d (held ++ rest) = some stop := by
  obtain ⟨headerText, found, behind, hopens, hsearch, htext, hfound, hbehind, hgood, hstop⟩ :=
    restart_eq_some h
  have hopensWhole : Opens (held ++ rest) := (opens_append hopens.ne_nil).mpr hopens
  by_cases hlong : continuationHeaderWindow ≤ held.length
  · have htake : (held ++ rest).take continuationHeaderWindow =
        held.take continuationHeaderWindow := take_append_of_le_length hlong
    rw [← htake] at hsearch htext
    rw [restart_of_search hopensWhole hsearch hgood, htext, length_append, hstop]
    congr 1
    omega
  · have htake : held.take continuationHeaderWindow = held :=
      take_of_length_le (by omega)
    rw [htake] at hsearch htext
    rcases hbehind with rfl | ⟨more, rfl⟩
    · have hlen := congrArg List.length htext
      rw [append_nil] at hlen
      omega
    · have hgrown := Newlines.search_extend isSeparator_nil hsearch
        (rest.take (continuationHeaderWindow - held.length))
      have hsearchWhole : searchSeparator ((held ++ rest).take continuationHeaderWindow) =
          some (headerText, '\n' :: more ++
            rest.take (continuationHeaderWindow - held.length)) := by
        rw [take_append, htake]
        exact hgrown
      rw [restart_of_search hopensWhole hsearchWhole hgood, take_append, htake, hstop]
      congr 1
      have hlen := congrArg List.length htext
      simp only [length_append] at hlen ⊢
      omega

theorem restart_le (h : restart d text = some stop) : stop ≤ text.length := by
  obtain ⟨headerText, found, behind, -, -, htext, -, -, -, hstop⟩ := restart_eq_some h
  have hlen := congrArg List.length htext
  rw [length_append, length_take] at hlen
  omega

theorem headerLength_le (d : Decoder) (text : Text) : headerLength d text ≤ text.length := by
  unfold headerLength
  cases hrestart : restart d text with
  | none => exact Nat.zero_le _
  | some stop =>
    dsimp only
    have hle := restart_le hrestart
    split
    · rename_i hnewline
      have hlt := (List.getElem?_eq_some_iff.mp hnewline).1
      omega
    · omega

/-- **The header has arrived**: then it is dropped from what has arrived. -/
theorem headerLength_held (hpos : 0 < headerLength d (held ++ rest))
    (hle : headerLength d (held ++ rest) ≤ held.length) :
    headerLength d held = headerLength d (held ++ rest) := by
  cases hrestart : restart d (held ++ rest) with
  | none =>
    unfold headerLength at hpos
    rw [hrestart] at hpos
    cases hpos
  | some stop =>
    have hheld := restart_held hrestart hle
    unfold headerLength at hle ⊢
    rw [hrestart] at hle ⊢
    rw [hheld]
    dsimp only at hle ⊢
    by_cases hlt : stop < held.length
    · rw [List.getElem?_append_left hlt]
    · -- nothing behind the separator line has come
      have hnone : held[stop]? = none := List.getElem?_eq_none (by omega)
      rw [hnone]
      split at hle
      · omega
      · rename_i hnewline
        rw [if_neg hnewline]
        rfl

theorem headerLength_held_of_zero (hzero : headerLength d (held ++ rest) = 0) :
    headerLength d held = 0 ∨ headerLength d held = held.length := by
  cases hrestart : restart d held with
  | none =>
    left
    unfold headerLength
    rw [hrestart]
  | some stop =>
    by_cases hlt : stop < held.length
    · have hwhole := restart_whole rest hrestart hlt
      have hstop : stop = 0 := by
        unfold headerLength at hzero
        rw [hwhole] at hzero
        dsimp only at hzero
        omega
      obtain ⟨headerText, found, -, -, -, -, hfound, -, -, hlength⟩ := restart_eq_some hrestart
      have hdash := dash_mem_of_isSeparator hfound
      rw [hstop, length_append] at hlength
      have hnil : found = [] := eq_nil_of_length_eq_zero (by omega)
      rw [hnil] at hdash
      cases hdash
    · right
      have hle := restart_le hrestart
      have hnone : held[stop]? = none := List.getElem?_eq_none (by omega)
      unfold headerLength
      rw [hrestart]
      dsimp only
      rw [hnone, if_neg (by simp)]
      omega

end Header

section Overlap

variable {previous held rest : Text}

theorem overlapFrom_le (previous addition : Text) (size : Nat) :
    overlapFrom previous addition size ≤ size := by
  induction size with
  | zero => exact le_rfl
  | succ size ih =>
    unfold overlapFrom
    split
    · exact Nat.zero_le _
    · split
      · exact le_rfl
      · exact ih.trans (Nat.le_succ _)

theorem overlapFrom_of_le {addition : Text} {small large : Nat} (hle : small ≤ large)
    (h : overlapFrom previous addition large ≤ small) :
    overlapFrom previous addition small = overlapFrom previous addition large := by
  induction large, hle using Nat.le_induction with
  | base => rfl
  | succ large hle ih =>
    unfold overlapFrom at h
    rw [overlapFrom]
    split at h
    · rename_i hmin
      rw [if_pos hmin]
      cases small with
      | zero => rfl
      | succ small =>
        unfold overlapFrom
        rw [if_pos (by omega)]
    · rename_i hmin
      rw [if_neg hmin]
      split at h
      · omega
      · rename_i hends
        rw [if_neg hends]
        exact ih h

theorem overlapFrom_append {size : Nat} (hsize : size ≤ held.length) :
    overlapFrom previous (held ++ rest) size = overlapFrom previous held size := by
  induction size with
  | zero => rfl
  | succ size ih =>
    unfold overlapFrom
    rw [take_append_of_le_length hsize, ih (by omega)]

theorem overlap_le (previous addition : Text) : overlap previous addition ≤ addition.length := by
  have hle := overlapFrom_le previous addition
    (min (min previous.length addition.length) overlapMaxChars)
  unfold overlap
  omega

/-- **The repeated words have arrived**: then they are dropped from what has arrived. -/
theorem overlap_held (h : overlap previous (held ++ rest) ≤ held.length) :
    overlap previous held = overlap previous (held ++ rest) := by
  unfold overlap at h ⊢
  generalize hlarge : min (min previous.length (held ++ rest).length) overlapMaxChars = large at h ⊢
  generalize hsmall : min (min previous.length held.length) overlapMaxChars = small
  rw [length_append] at hlarge
  have hle : small ≤ large := by omega
  have hfound : overlapFrom previous (held ++ rest) large ≤ small := by
    have hfrom := overlapFrom_le previous (held ++ rest) large
    omega
  rw [← overlapFrom_of_le hle hfound, overlapFrom_append (by omega)]

end Overlap

section Dropped

variable {d : Decoder} {previous held rest : Text}

theorem dropped_le (d : Decoder) (previous text : Text) :
    dropped d previous text ≤ text.length := by
  have hheader := headerLength_le d text
  have hoverlap := overlap_le previous (text.drop (headerLength d text))
  rw [length_drop] at hoverlap
  unfold dropped
  omega

structure Arrived (d : Decoder) (previous held whole : Text) : Prop where
  dropped : dropped d previous whole ≤ held.length
  header : headerLength d held ≤ Chat.dropped d previous whole

theorem dropped_of_header (h : headerLength d held = headerLength d (held ++ rest))
    (hle : dropped d previous (held ++ rest) ≤ held.length) :
    dropped d previous held = dropped d previous (held ++ rest) := by
  unfold dropped at hle ⊢
  rw [h]
  have hheader : headerLength d (held ++ rest) ≤ held.length := by omega
  rw [drop_append_of_le_length hheader] at hle ⊢
  rw [overlap_held]
  rw [length_drop]
  omega

/-- **The same is dropped** from what has arrived and from the whole reply. -/
theorem dropped_held_iff : dropped d previous held = dropped d previous (held ++ rest) ↔
    Arrived d previous held (held ++ rest) := by
  constructor
  · intro h
    refine ⟨h ▸ dropped_le d previous held, ?_⟩
    rw [← h]
    exact Nat.le_add_right _ _
  · rintro ⟨harrived, hheader⟩
    have hpart : headerLength d (held ++ rest) ≤ held.length :=
      (Nat.le_add_right _ _).trans harrived
    by_cases hpos : 0 < headerLength d (held ++ rest)
    · exact dropped_of_header (headerLength_held hpos hpart) harrived
    · have hzero : headerLength d (held ++ rest) = 0 := by omega
      rcases headerLength_held_of_zero hzero with hnone | hall
      · exact dropped_of_header (hnone.trans hzero.symm) harrived
      · -- all that has arrived is dropped, as a header or as repeated words
        have hend : overlap previous (held.drop (headerLength d held)) = 0 := by
          have hle := overlap_le previous (held.drop (headerLength d held))
          rw [length_drop] at hle
          omega
        have hheld : dropped d previous held = headerLength d held := by
          unfold dropped
          rw [hend, Nat.add_zero]
        omega

end Dropped

/-! ### What a continuation streams -/

def heldFrom (crPending : Bool) (buffer : Text) : List Text → Option Text
  | [] => none
  | delta :: deltas =>
    if delta = [] then heldFrom crPending buffer deltas
    else
      let buffer := buffer ++ (push crPending delta).1
      if ContinuationStreamer.ready buffer then some buffer
      else heldFrom (push crPending delta).2 buffer deltas

def heldText (deltas : List Text) : Option Text := heldFrom false [] deltas

section Runs

variable {d : Decoder} {raw out held : Text} {s : ContinuationStreamer}

theorem run_decided (deltas : List Text) (h : Passed raw out s.crPending)
    (hdecided : s.decided = true) :
    out ++ s.run d deltas = normalise (raw ++ deltas.flatten) := by
  induction deltas generalizing raw out s with
  | nil =>
    unfold ContinuationStreamer.run ContinuationStreamer.finish
    rw [if_pos hdecided, h.flush, flatten_nil, append_nil]
  | cons delta deltas ih =>
    rw [flatten_cons, ← append_assoc]
    unfold ContinuationStreamer.run ContinuationStreamer.feed
    by_cases hdelta : delta = []
    · rw [if_pos hdelta, hdelta, append_nil]
      exact ih h hdecided
    · rw [if_neg hdelta]
      dsimp only
      rw [hdecided, if_pos rfl]
      have hnext := ih (s := { s with crPending := (push s.crPending delta).2, decided := true })
        (h.push hdelta) rfl
      rw [← hnext, append_assoc]

/-- **Until it decides**: the rest of the reply is stitched as a whole, or what is held is stitched
and the rest passed on. -/
theorem run_undecided (deltas : List Text) (h : Passed raw s.buffer s.crPending)
    (hdecided : s.decided = false) :
    match heldFrom s.crPending s.buffer deltas with
    | none => s.run d deltas = stitchContinuation d s.previous (raw ++ deltas.flatten)
    | some held => ∃ rest, normalise (raw ++ deltas.flatten) = held ++ rest ∧
        normalise held = held ∧
        s.run d deltas = stitchContinuation d s.previous held ++ rest := by
  induction deltas generalizing raw s with
  | nil =>
    unfold heldFrom
    dsimp only
    unfold ContinuationStreamer.run ContinuationStreamer.finish
    rw [hdecided, if_neg Bool.false_ne_true, h.flush, flatten_nil, append_nil,
      stitchContinuation_eq, stitchContinuation_eq, Newlines.normalise_normalise]
  | cons delta deltas ih =>
    rw [flatten_cons, ← append_assoc]
    unfold heldFrom ContinuationStreamer.run ContinuationStreamer.feed
    by_cases hdelta : delta = []
    · rw [if_pos hdelta, if_pos hdelta, hdelta, append_nil]
      exact ih h hdecided
    · rw [if_neg hdelta, if_neg hdelta]
      have hpassed := h.push hdelta
      dsimp only
      rw [hdecided, if_neg Bool.false_ne_true]
      by_cases hready : ContinuationStreamer.ready (s.buffer ++ (push s.crPending delta).1) = true
      · rw [if_pos hready, if_pos hready]
        dsimp only
        have hrest := run_decided (d := d)
          (s := ⟨s.previous, s.buffer ++ (push s.crPending delta).1,
            (push s.crPending delta).2, true⟩) deltas hpassed rfl
        exact ⟨_, hrest.symm, hpassed.normalise_out, rfl⟩
      · rw [if_neg hready, if_neg hready]
        exact ih (s := ⟨s.previous, s.buffer ++ (push s.crPending delta).1,
          (push s.crPending delta).2, false⟩) hpassed rfl

end Runs

/-- **What is streamed is what is stored** exactly if everything that is dropped from the whole
reply has arrived when the streamer decides. -/
theorem continued_text_iff (d : Decoder) (previous : Text) (deltas : List Text) :
    continuedText d previous deltas = stitchContinuation d previous deltas.flatten ↔
      ∀ held, heldText deltas = some held →
        Arrived d previous held (normalise deltas.flatten) := by
  have hrun := run_undecided (d := d) (s := ⟨previous, [], false, false⟩) deltas Passed.nil rfl
  rw [List.nil_append] at hrun
  unfold continuedText heldText
  dsimp only at hrun
  cases hheld : heldFrom false [] deltas with
  | none =>
    rw [hheld] at hrun
    constructor
    · intro _ held h
      cases h
    · intro _
      exact hrun
  | some held =>
    rw [hheld] at hrun
    obtain ⟨rest, hwhole, hnormal, hstreamed⟩ := hrun
    rw [hstreamed, stitchContinuation_eq, stitchContinuation_eq, hnormal, hwhole]
    have harrived : (∀ held', some held = some held' → Arrived d previous held' (held ++ rest)) ↔
        Arrived d previous held (held ++ rest) := by
      constructor
      · intro h
        exact h held rfl
      · rintro h _ ⟨⟩
        exact h
    rw [harrived, ← dropped_held_iff, ← List.drop_append_of_le_length (dropped_le d previous held)]
    constructor
    · intro h
      have hlength := congrArg List.length h
      simp only [List.length_drop, List.length_append] at hlength
      have hle := dropped_le d previous held
      have hle' := dropped_le d previous (held ++ rest)
      rw [List.length_append] at hle'
      omega
    · intro h
      rw [h]

def cutAnswer : Text := ['a', 'b', 'c', 'd', 'e', 'f', 'g', 'h']

def restartedReply : List Text :=
  [dashes ++ separatorWord ++ dashes ++ ['\n'], cutAnswer ++ ['!']]

set_option maxRecDepth 10000 in
/-- The repeated words are streamed, and are not stored. -/
theorem repeated_words_streamed : continuedText jsonDecoder cutAnswer restartedReply ≠
    stitchContinuation jsonDecoder cutAnswer restartedReply.flatten := by
  decide

end AgenticKibana.Chat
