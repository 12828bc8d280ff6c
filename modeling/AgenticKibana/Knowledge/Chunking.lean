import AgenticKibana.Library.FullLines
import AgenticKibana.Library.Patterns
import Mathlib.Data.List.Chain

/-!
# The chunks of a document

`chunk_text` splits a text at its blank lines, cuts what is too long, and packs the paragraphs into
chunks, each of which repeats the end of the one before it.  Without what is repeated and without
white space, the chunks are the text.
-/

namespace AgenticKibana.Knowledge

open AgenticKibana.Library List
open AgenticKibana.Library.TextLines
open AgenticKibana.Library.Newlines (joinCrLf normalise)

abbrev Text := List Char

structure ChunkLimits where
  target : Nat
  overlap : Nat
  target_pos : 0 < target

theorem clamped_pos (targetChars : Int) : 0 < (max 1 targetChars).toNat := by
  omega

/-- `max(1, target_chars)` and `max(0, min(overlap, target_chars - 1))`. -/
def clamp (targetChars overlap : Int) : ChunkLimits where
  target := (max 1 targetChars).toNat
  overlap := (max 0 (min overlap (max 1 targetChars - 1))).toNat
  target_pos := clamped_pos targetChars

/-! ### Cutting -/

/-- `rfind(" ")`. -/
def rfindBlank : Text → Option Nat
  | [] => none
  | c :: text =>
    match rfindBlank text with
    | some i => some (i + 1)
    | none => if c = ' ' then some 0 else none

def cutAt (target : Nat) (text : Text) : Nat :=
  match rfindBlank (text.take target) with
  | some cut => if cut < target / 2 then target else cut
  | none => target

variable {text : Text}

theorem rfindBlank_eq_some {i : Nat} (h : rfindBlank text = some i) : text[i]? = some ' ' := by
  induction text generalizing i with
  | nil => simp [rfindBlank] at h
  | cons c text ih =>
    unfold rfindBlank at h
    cases hlater : rfindBlank text with
    | some j =>
      rw [hlater] at h
      obtain rfl := Option.some.inj h
      exact ih hlater
    | none =>
      simp only [hlater, Option.ite_none_right_eq_some] at h
      obtain ⟨rfl, h⟩ := h
      obtain rfl := Option.some.inj h
      rfl

theorem cutAt_cases (target : Nat) (text : Text) : cutAt target text = target ∨
    cutAt target text < target ∧ text[cutAt target text]? = some ' ' := by
  unfold cutAt
  cases hfind : rfindBlank (text.take target) with
  | none => exact .inl rfl
  | some cut =>
    dsimp only
    by_cases hnear : cut < target / 2
    · exact .inl (if_pos hnear)
    · right
      rw [if_neg hnear]
      have hblank := rfindBlank_eq_some hfind
      rw [List.getElem?_take] at hblank
      by_cases hcut : cut < target
      · rw [if_pos hcut] at hblank
        exact ⟨hcut, hblank⟩
      · rw [if_neg hcut] at hblank
        cases hblank

/-- Every round of the loop shortens the text: where the cut is at its beginning, it begins with the
blank that is stripped. -/
theorem length_behind_lt {target : Nat} (hpos : 0 < target) (h : target < text.length) :
    ((text.drop (cutAt target text)).dropWhile isSpace).length < text.length := by
  have hsuffix := (dropWhile_suffix (l := text.drop (cutAt target text)) isSpace).length_le
  rw [length_drop] at hsuffix
  rcases Nat.eq_zero_or_pos (cutAt target text) with hzero | hcut
  · rcases cutAt_cases target text with heq | ⟨-, hblank⟩
    · omega
    · rw [hzero] at hblank ⊢
      cases text with
      | nil => cases h
      | cons c rest =>
        obtain rfl := Option.some.inj hblank
        rw [drop_zero, dropWhile_cons, if_pos (by rfl)]
        exact Nat.lt_succ_of_le (dropWhile_suffix isSpace).length_le
  · omega

def hardPieces (target : Nat) (hpos : 0 < target) (text : Text) : List Text :=
  if _ : target < text.length then
    strip (text.take (cutAt target text)) ::
      hardPieces target hpos ((text.drop (cutAt target text)).dropWhile isSpace)
  else if strip text = [] then [] else [strip text]
termination_by text.length
decreasing_by exact length_behind_lt hpos ‹_›

def hardSplit (limits : ChunkLimits) (paragraph : Text) : List Text :=
  (hardPieces limits.target limits.target_pos paragraph).filter (· ≠ [])

/-- `_PARA_RE`. -/
def paragraphBreak : Patterns.Pattern :=
  Patterns.sequence [Patterns.exactly (· == '\n') 1, Patterns.many isSpace 0 none,
    Patterns.many (· == '\n') 1 none]

def paragraphs (limits : ChunkLimits) (text : Text) : List Text :=
  (Patterns.split paragraphBreak 0 [] (normalise text)).flatMap fun raw =>
    if strip raw = [] then []
    else if limits.target < (strip raw).length then hardSplit limits (strip raw)
    else [strip raw]

/-- What a chunk begins with: the end of the chunk before it, and a blank line. -/
def repeated (overlap : Nat) (before : Text) : Text :=
  let tail := strip (before.drop (before.length - overlap))
  if tail = [] then [] else tail ++ ['\n', '\n']

def pack (limits : ChunkLimits) : Text → List Text → List Text
  | current, [] => if strip current = [] then [] else [strip current]
  | current, para :: paras =>
    if current = [] then pack limits para paras
    else if current.length + para.length + 2 ≤ limits.target then
      pack limits (current ++ '\n' :: '\n' :: para) paras
    else current :: pack limits (repeated limits.overlap current ++ para) paras

def chunkText (text : Text) (targetChars overlap : Int) : List Text :=
  if strip text = [] then []
  else
    let limits := clamp targetChars overlap
    if paragraphs limits text = [] then [strip text]
    else (pack limits [] (paragraphs limits text)).filter fun c => strip c ≠ []

/-! ### What is not white space -/

def solid (text : Text) : Text := text.filter fun c => !isSpace c

theorem solid_append (a b : Text) : solid (a ++ b) = solid a ++ solid b := filter_append ..

theorem solid_dropWhile (text : Text) : solid (text.dropWhile isSpace) = solid text := by
  induction text with
  | nil => rfl
  | cons c text ih =>
    by_cases hc : isSpace c = true
    · rw [dropWhile_cons, if_pos hc, ih]
      simp [solid, hc]
    · rw [dropWhile_cons, if_neg hc]

theorem solid_strip (text : Text) : solid (strip text) = solid text := by
  unfold strip
  rw [solid, filter_reverse, ← solid, solid_dropWhile, solid, filter_reverse,
    reverse_reverse, ← solid, solid_dropWhile]

theorem solid_eq_nil_iff : solid text = [] ↔ strip text = [] := by
  rw [FullLines.strip_eq_nil_iff]
  simp [solid]

theorem solid_normalise (text : Text) : solid (normalise text) = solid text := by
  have hjoin : solid (joinCrLf text) = solid text := by
    induction text with
    | nil => rfl
    | cons c text ih =>
      unfold joinCrLf
      by_cases hc : c = '\r' ∧ text.head? = some '\n'
      · rw [if_pos hc, ih, hc.1]
        rfl
      · rw [if_neg hc]
        simp only [solid, filter_cons] at ih ⊢
        rw [ih]
  rw [← hjoin]
  unfold normalise
  generalize joinCrLf text = joined
  induction joined with
  | nil => rfl
  | cons c joined ih =>
    by_cases hc : c = '\r'
    · subst hc
      exact ih
    · simp only [solid, map_cons, if_neg hc, filter_cons] at ih ⊢
      rw [ih]

theorem length_strip_le (text : Text) : (strip text).length ≤ text.length := by
  unfold strip
  have houter := (dropWhile_suffix (l := (text.dropWhile isSpace).reverse) isSpace).length_le
  have hinner := (dropWhile_suffix (l := text) isSpace).length_le
  simp only [length_reverse] at houter ⊢
  exact houter.trans hinner

def Tidy (text : Text) : Prop := text ≠ [] ∧ Trimmed text

theorem tidy_strip (h : strip text ≠ []) : Tidy (strip text) :=
  ⟨h, trimmed_strip text⟩

theorem Tidy.strip_eq (h : Tidy text) : strip text = text := strip_of_trimmed h.2

theorem Tidy.join {a b : Text} (ha : Tidy a) (hb : Tidy b) (between : Text) :
    Tidy (a ++ between ++ b) := by
  refine ⟨by simp [ha.1], fun c hc => ?_, fun c hc => ?_⟩
  · rw [append_assoc, head?_append_of_ne_nil _ ha.1] at hc
    exact ha.2.1 c hc
  · rw [getLast?_append_of_ne_nil _ hb.1] at hc
    exact hb.2.2 c hc

structure Holds (limit : Nat) (paras : List Text) (text : Text) : Prop where
  tidy : ∀ p ∈ paras, Tidy p
  short : ∀ p ∈ paras, p.length ≤ limit
  solid_eq : solid paras.flatten = solid text

variable {limit : Nat}

theorem Holds.append {paras paras' : List Text} {text' : Text} (h : Holds limit paras text)
    (h' : Holds limit paras' text') : Holds limit (paras ++ paras') (text ++ text') where
  tidy p hp := (mem_append.mp hp).elim (h.tidy p) (h'.tidy p)
  short p hp := (mem_append.mp hp).elim (h.short p) (h'.short p)
  solid_eq := by rw [flatten_append, solid_append, solid_append, h.solid_eq, h'.solid_eq]

theorem holds_strip (h : text.length ≤ limit) :
    Holds limit (if strip text = [] then [] else [strip text]) text := by
  by_cases hblank : strip text = []
  · rw [if_pos hblank]
    exact ⟨by simp, by simp, (solid_eq_nil_iff.mpr hblank).symm⟩
  · rw [if_neg hblank]
    refine ⟨?_, ?_, by simp [solid_strip]⟩
    all_goals
      intro p hp
      obtain rfl := mem_singleton.mp hp
    · exact tidy_strip hblank
    · exact (length_strip_le text).trans h

theorem Holds.of_solid {limit : Nat} {paras : List Text} {text text' : Text}
    (h : Holds limit paras text) (heq : solid text = solid text') : Holds limit paras text' :=
  { h with solid_eq := h.solid_eq.trans heq }

theorem holds_hardSplit (limits : ChunkLimits) (text : Text) :
    Holds limits.target (hardSplit limits text) text := by
  unfold hardSplit
  generalize hlen : text.length = n
  induction n using Nat.strong_induction_on generalizing text with
  | h n ih =>
    rw [hardPieces]
    by_cases hlong : limits.target < text.length
    · have hcut : (text.take (cutAt limits.target text)).length ≤ limits.target := by
        rw [length_take]
        rcases cutAt_cases limits.target text with heq | ⟨hlt, -⟩ <;> omega
      have hrest := ih _ (hlen ▸ length_behind_lt limits.target_pos hlong) _ rfl
      have hboth := @Holds.of_solid _ _ _ text ((holds_strip hcut).append hrest) (by
        rw [solid_append, solid_dropWhile, ← solid_append, take_append_drop])
      rw [dif_pos hlong, filter_cons]
      by_cases hblank : strip (text.take (cutAt limits.target text)) = []
      · simpa [hblank] using hboth
      · simpa [hblank] using hboth
    · have hlast := holds_strip (not_lt.mp hlong)
      rw [dif_neg hlong]
      by_cases hblank : strip text = []
      · simpa [hblank] using hlast
      · simpa [hblank] using hlast

theorem solid_flatten_paragraphBreak (text : Text) :
    solid (Patterns.split paragraphBreak 0 [] text).flatten = solid text := by
  have hnewline : ∀ c, (c == '\n') = true → isSpace c = true := by
    intro c hc
    obtain rfl := beq_iff_eq.mp hc
    rfl
  have hpasses : Patterns.PassesOver isSpace paragraphBreak := by
    apply Patterns.passesOver_sequence
    simp only [forall_mem_cons, not_mem_nil, false_implies, implies_true, and_true]
    exact ⟨Patterns.passesOver_many hnewline _ _, Patterns.passesOver_many (fun _ hc => hc) _ _,
      Patterns.passesOver_many hnewline _ _⟩
  exact Patterns.filter_flatten_split hpasses text 0 [] (by simp)

theorem holds_paragraphs (limits : ChunkLimits) (text : Text) :
    Holds limits.target (paragraphs limits text) text := by
  have hsolid := (solid_flatten_paragraphBreak (normalise text)).trans (solid_normalise text)
  refine Holds.of_solid ?_ hsolid
  unfold paragraphs
  generalize Patterns.split paragraphBreak 0 [] (normalise text) = raws
  induction raws with
  | nil => exact ⟨by simp, by simp, rfl⟩
  | cons raw raws ih =>
    rw [flatMap_cons, flatten_cons]
    refine Holds.append ?_ ih
    by_cases hblank : strip raw = []
    · rw [if_pos hblank]
      exact ⟨by simp, by simp, (solid_eq_nil_iff.mpr hblank).symm⟩
    · rw [if_neg hblank]
      by_cases hlong : limits.target < (strip raw).length
      · rw [if_pos hlong]
        exact (holds_hardSplit limits _).of_solid (solid_strip raw)
      · rw [if_neg hlong]
        have hone := (holds_strip (not_lt.mp hlong)).of_solid (solid_strip raw)
        rwa [(tidy_strip hblank).strip_eq, if_neg hblank] at hone

/-! ### Chunks -/

def Repeats (overlap : Nat) (chunks : List Text) : Prop :=
  chunks.IsChain fun before chunk => repeated overlap before <+: chunk

def added (overlap : Nat) : Text → List Text → List Text
  | _, [] => []
  | before, chunk :: chunks =>
    chunk.drop (repeated overlap before).length :: added overlap chunk chunks

/-- Chunks behind `before` that add what a text holds. -/
structure Packed (limits : ChunkLimits) (before : Text) (chunks : List Text) (text : Text) :
    Prop where
  some : chunks ≠ []
  tidy : ∀ c ∈ chunks, Tidy c
  short : ∀ c ∈ chunks, c.length ≤ limits.target + limits.overlap + 2
  repeats : Repeats limits.overlap (before :: chunks)
  solid_eq : solid (added limits.overlap before chunks).flatten = solid text

theorem length_repeated_le (overlap : Nat) (before : Text) :
    (repeated overlap before).length ≤ overlap + 2 := by
  unfold repeated
  dsimp only
  have hstrip := length_strip_le (before.drop (before.length - overlap))
  rw [length_drop] at hstrip
  split
  · exact Nat.zero_le _
  · rw [length_append]
    change _ + 2 ≤ _
    omega

theorem tidy_repeated_append {para : Text} (overlap : Nat) (before : Text) (h : Tidy para) :
    Tidy (repeated overlap before ++ para) := by
  unfold repeated
  dsimp only
  split
  · exact h
  · next htail => exact (tidy_strip htail).join h _

theorem packed_pack {limits : ChunkLimits} {paras : List Text} {text : Text}
    (hparas : Holds limits.target paras text) :
    ∀ {before body : Text}, Tidy (repeated limits.overlap before ++ body) →
      (repeated limits.overlap before ++ body).length ≤ limits.target + limits.overlap + 2 →
      Packed limits before (pack limits (repeated limits.overlap before ++ body) paras)
        (body ++ text) := by
  induction paras generalizing text with
  | nil =>
    intro before body htidy hshort
    have htext : solid text = [] := hparas.solid_eq.symm
    have hfull : strip (repeated limits.overlap before ++ body) ≠ [] := by
      rw [htidy.strip_eq]
      exact htidy.1
    unfold pack
    rw [if_neg hfull, htidy.strip_eq]
    refine ⟨by simp, by simpa using htidy, by simpa using hshort, ?_, ?_⟩
    · exact isChain_pair.mpr (prefix_append _ _)
    · rw [solid_append, htext]
      simp [added]
  | cons para paras ih =>
    intro before body htidy hshort
    have hpara := hparas.tidy para mem_cons_self
    have hlength := hparas.short para mem_cons_self
    have hrest : Holds limits.target paras paras.flatten :=
      ⟨fun p hp => hparas.tidy p (mem_cons_of_mem para hp),
        fun p hp => hparas.short p (mem_cons_of_mem para hp), rfl⟩
    have hsolid : solid text = solid para ++ solid paras.flatten := by
      rw [← hparas.solid_eq, flatten_cons, solid_append]
    unfold pack
    rw [if_neg htidy.1]
    by_cases hfits :
        (repeated limits.overlap before ++ body).length + para.length + 2 ≤ limits.target
    · rw [if_pos hfits, append_assoc]
      have hjoined := htidy.join hpara ['\n', '\n']
      rw [append_assoc, append_assoc] at hjoined
      have hmore := ih hrest hjoined (by
        simp only [length_append, length_cons, length_nil] at hfits ⊢
        omega)
      refine { hmore with solid_eq := hmore.solid_eq.trans ?_ }
      have hblank : solid ['\n', '\n'] = [] := rfl
      simp only [solid_append, hsolid, hblank, nil_append, append_assoc]
    · rw [if_neg hfits]
      have hnext := ih hrest (tidy_repeated_append limits.overlap
        (repeated limits.overlap before ++ body) hpara) (by
          have := length_repeated_le limits.overlap (repeated limits.overlap before ++ body)
          rw [length_append]
          omega)
      refine ⟨by simp, forall_mem_cons.mpr ⟨htidy, hnext.tidy⟩,
        forall_mem_cons.mpr ⟨hshort, hnext.short⟩, ?_, ?_⟩
      · exact isChain_cons_cons.mpr ⟨prefix_append _ _, hnext.repeats⟩
      · rw [added, flatten_cons, solid_append, hnext.solid_eq, drop_left, solid_append,
          solid_append, hsolid]

theorem repeated_nil (overlap : Nat) : repeated overlap [] = [] := by
  simp [repeated, strip]

theorem packed_chunkText (h : strip text ≠ []) (targetChars overlap : Int) :
    Packed (clamp targetChars overlap) [] (chunkText text targetChars overlap) text := by
  unfold chunkText
  rw [if_neg h]
  dsimp only
  generalize clamp targetChars overlap = limits
  have hholds := holds_paragraphs limits text
  cases hparas : paragraphs limits text with
  | nil =>
    rw [hparas] at hholds
    exact absurd (solid_eq_nil_iff.mp hholds.solid_eq.symm) h
  | cons para paras =>
    rw [hparas] at hholds
    have hrest : Holds limits.target paras paras.flatten :=
      ⟨fun p hp => hholds.tidy p (mem_cons_of_mem para hp),
        fun p hp => hholds.short p (mem_cons_of_mem para hp), rfl⟩
    have htidy := hholds.tidy para mem_cons_self
    have hlength := hholds.short para mem_cons_self
    have hpacked := @packed_pack limits paras paras.flatten hrest [] para
      (by rwa [repeated_nil, nil_append])
      (by rw [repeated_nil, nil_append]; omega)
    rw [repeated_nil, nil_append] at hpacked
    have hall : ∀ c ∈ pack limits para paras, decide (strip c ≠ []) = true := by
      intro c hc
      have hc := hpacked.tidy c hc
      rw [decide_eq_true_eq, hc.strip_eq]
      exact hc.1
    rw [if_neg (cons_ne_nil _ _), pack, if_pos rfl, filter_eq_self.mpr hall]
    refine { hpacked with solid_eq := hpacked.solid_eq.trans ?_ }
    rw [solid_append, ← solid_append, ← flatten_cons, hholds.solid_eq]

/-- **Chunking loses no text**: the chunks are not blank and no longer than allowed, each begins
with the end of the one before it, and without those beginnings they hold what the text holds. -/
theorem chunkText_keeps {text : Text} (h : ∃ c ∈ text, isSpace c = false)
    (targetChars overlap : Int) :
    let limits := clamp targetChars overlap
    let chunks := chunkText text targetChars overlap
    chunks ≠ [] ∧
      (∀ c ∈ chunks, strip c ≠ [] ∧ c.length ≤ limits.target + limits.overlap + 2) ∧
      Repeats limits.overlap chunks ∧
      solid (added limits.overlap [] chunks).flatten = solid text := by
  have hfull : strip text ≠ [] := by
    intro hblank
    obtain ⟨c, hc, hspace⟩ := h
    rw [FullLines.strip_eq_nil_iff.mp hblank c hc] at hspace
    cases hspace
  have hpacked := packed_chunkText hfull targetChars overlap
  refine ⟨hpacked.some, fun c hc => ⟨?_, hpacked.short c hc⟩, hpacked.repeats.tail,
    hpacked.solid_eq⟩
  have htidy := hpacked.tidy c hc
  rw [htidy.strip_eq]
  exact htidy.1

theorem two_paragraphs_kept :
    let limits := clamp 4 2
    let chunks := chunkText "alert\n\nhost".toList 4 2
    chunks ≠ [] ∧
      (∀ c ∈ chunks, strip c ≠ [] ∧ c.length ≤ limits.target + limits.overlap + 2) ∧
      Repeats limits.overlap chunks ∧
      solid (added limits.overlap [] chunks).flatten = solid "alert\n\nhost".toList :=
  chunkText_keeps ⟨'a', by decide, by decide⟩ 4 2

end AgenticKibana.Knowledge
