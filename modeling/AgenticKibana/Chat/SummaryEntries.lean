import AgenticKibana.Chat.Summaries
import AgenticKibana.Library.FullLines

/-!
# Reading a rendered summary

What a fold reads of a summary depends on the lines that are not blank: each entry is read from
the lines that were rendered for it, as long as no line of its lookups reads as an entry or as a
marker.  A question is shown on one line and is read back as it was shown; the lookups stay with
their entry, on one line from the second fold on.
-/

namespace AgenticKibana.Chat

open AgenticKibana.Library List
open AgenticKibana.Library.TextLines
open AgenticKibana.Library.Newlines
open AgenticKibana.Library.FullLines
open AgenticKibana.Receivers (Digits isDecimal decimalValue)

section Lines

variable (digits : Digits)

def Asks (line : Text) : Prop := startsWith line askedWord = true

def Inner (line : Text) : Prop := ¬ Asks line ∧ omittedCount digits (strip line) = none

def entryStep (entries : List SummaryEntry) (line : Text) : List SummaryEntry :=
  (readLine digits ([], entries) line).2

def Taken (entries : List SummaryEntry) (line : Text) : Prop :=
  Inner digits line → ∃ entry, entries.getLast? = some entry ∧ entry.omitted = 0

def AllTaken : List SummaryEntry → List Text → Prop
  | _, [] => True
  | entries, line :: lines => Taken digits entries line ∧
      AllTaken (entryStep digits entries line) lines

variable {entries : List SummaryEntry} {c : Char} {long : Text}

theorem allTaken_append {front back : List Text} :
    AllTaken digits entries (front ++ back) ↔ AllTaken digits entries front ∧
      AllTaken digits (front.foldl (entryStep digits) entries) back := by
  induction front generalizing entries with
  | nil => simp [AllTaken]
  | cons line front ih => simp [AllTaken, ih, and_assoc]

variable {text : Text}

theorem startsWith_iff {opening : Text} : startsWith text opening = true ↔ opening <+: text :=
  List.isPrefixOf_iff_prefix

theorem readLine_snd (head : List Text) (entries : List SummaryEntry) (line : Text) :
    (readLine digits (head, entries) line).2 = entryStep digits entries line := by
  unfold entryStep readLine
  by_cases hasks : startsWith line askedWord = true
  · simp [hasks]
  · simp only [hasks, Bool.false_eq_true, if_false]
    cases omittedCount digits (strip line) with
    | some n => rfl
    | none =>
      cases hlast : entries.getLast? with
      | none => simp
      | some entry => by_cases hopen : entry.omitted = 0 <;> simp [hopen]

variable {head : List Text} {line : Text}

theorem readLine_fst_of_taken (h : Taken digits entries line) :
    (readLine digits (head, entries) line).1 = head := by
  unfold readLine
  by_cases hasks : startsWith line askedWord = true
  · simp [hasks]
  · simp only [hasks, Bool.false_eq_true, if_false]
    cases hmark : omittedCount digits (strip line) with
    | some n => rfl
    | none =>
      obtain ⟨entry, hlast, hopen⟩ := h ⟨by simpa [Asks] using hasks, hmark⟩
      simp [hlast, hopen]

/-! ### Blank lines -/

theorem not_asks_of_blank (h : strip line = []) : ¬ Asks line := by
  intro hasks
  obtain ⟨rest, rfl⟩ := startsWith_iff.mp hasks
  have hspace := strip_eq_nil_iff.mp h '-' (by simp [askedWord])
  exact absurd hspace (by decide)

theorem inner_of_blank (h : strip line = []) : Inner digits line :=
  ⟨not_asks_of_blank h, by rw [h]; rfl⟩

theorem entryStep_inner {entry : SummaryEntry} (hline : Inner digits line)
    (hopen : entry.omitted = 0) :
    entryStep digits (entries ++ [entry]) line = entries ++ [entry.addLine (strip line)] := by
  have hasks : startsWith line askedWord = false := by simpa [Asks] using hline.1
  simp [entryStep, readLine, hasks, hline.2, hopen]

theorem addLine_blank (entry : SummaryEntry) : entry.addLine [] = entry := rfl

theorem entryStep_blank (h : strip line = []) : entryStep digits entries line = entries := by
  have hline := inner_of_blank digits h
  have hasks : startsWith line askedWord = false := by simpa [Asks] using hline.1
  cases hlast : entries.getLast? with
  | none => simp [entryStep, readLine, hasks, hline.2, hlast]
  | some entry =>
    by_cases hopen : entry.omitted = 0
    · obtain ⟨front, rfl⟩ := getLast?_eq_some_iff.mp hlast
      rw [entryStep_inner digits hline hopen, h, addLine_blank]
    · simp [entryStep, readLine, hasks, hline.2, hlast, hopen]

theorem blank_readLine (hhead : ∀ line ∈ head, strip line = []) (entries : List SummaryEntry)
    (h : strip line = []) : ∀ x ∈ (readLine digits (head, entries) line).1, strip x = [] := by
  have hline := inner_of_blank digits h
  have hasks : startsWith line askedWord = false := by simpa [Asks] using hline.1
  have hmore : ∀ x ∈ head ++ [line], strip x = [] := by
    intro x hx
    rcases mem_append.mp hx with hx | hx
    · exact hhead x hx
    · rw [mem_singleton.mp hx, h]
  unfold readLine
  rw [if_neg (by simp [hasks]), hline.2]
  dsimp only
  cases entries.getLast? with
  | none => exact hmore
  | some entry =>
    dsimp only
    by_cases hopen : entry.omitted = 0
    · rw [if_pos hopen]
      exact hhead
    · rw [if_neg hopen]
      exact hmore

/-- The entries are read from the lines that are not blank, and the head is blank where these all go
to entries. -/
theorem foldl_readLine (lines : List Text) (hhead : ∀ line ∈ head, strip line = [])
    (htaken : AllTaken digits entries (lines.filter fun line => strip line ≠ [])) :
    (∀ line ∈ (lines.foldl (readLine digits) (head, entries)).1, strip line = []) ∧
      (lines.foldl (readLine digits) (head, entries)).2 =
        (lines.filter fun line => strip line ≠ []).foldl (entryStep digits) entries := by
  induction lines generalizing head entries with
  | nil => exact ⟨hhead, rfl⟩
  | cons line lines ih =>
    have hpair : readLine digits (head, entries) line =
        ((readLine digits (head, entries) line).1, entryStep digits entries line) :=
      Prod.ext rfl (readLine_snd digits head entries line)
    rw [foldl_cons, hpair]
    by_cases hblank : strip line = []
    · rw [filter_cons_of_neg (by simp [hblank])] at htaken ⊢
      rw [entryStep_blank digits hblank]
      exact ih (blank_readLine digits hhead entries hblank) htaken
    · rw [filter_cons_of_pos (by simp [hblank])] at htaken ⊢
      rw [readLine_fst_of_taken digits htaken.1, foldl_cons]
      exact ih hhead htaken.2

theorem mem_intercalate {sep : Text} {pieces : List Text}
    (h : c ∈ sep.intercalate pieces) : c ∈ sep ∨ ∃ piece ∈ pieces, c ∈ piece := by
  induction pieces with
  | nil => simp at h
  | cons piece pieces ih =>
    cases pieces with
    | nil =>
      rw [intercalate_singleton] at h
      exact .inr ⟨piece, mem_cons_self, h⟩
    | cons next pieces =>
      rw [intercalate_cons_cons, mem_append, mem_append] at h
      rcases h with (h | h) | h
      · exact .inr ⟨piece, mem_cons_self, h⟩
      · exact .inl h
      · refine (ih h).imp_right ?_
        rintro ⟨x, hx, hc⟩
        exact ⟨x, mem_cons_of_mem _ hx, hc⟩

theorem parseExtractive_of_taken (h : AllTaken digits [] (fullLines text)) :
    parseExtractive digits text = ([], (fullLines text).foldl (entryStep digits) []) := by
  have hnone : ∀ line ∈ ([] : List Text), strip line = [] := fun line hline => by cases hline
  obtain ⟨hhead, hentries⟩ := foldl_readLine digits (text.splitOn '\n') hnone h
  unfold parseExtractive
  refine Prod.ext (strip_eq_nil_iff.mpr ?_) hentries
  intro c hc
  rcases mem_intercalate hc with hc | ⟨line, hline, hc⟩
  · rw [mem_singleton.mp hc]
    decide
  · exact strip_eq_nil_iff.mp (hhead line hline) c hc

def Firm (line : Text) : Prop := Asks line → strip (line.drop askedWord.length) ≠ []

variable {short : Text}

theorem asks_cut (hcut : Cut short long) (hfirm : Firm long) (hasks : Asks long) : Asks short ∧
      strip (short.drop askedWord.length) = strip (long.drop askedWord.length) := by
  obtain ⟨hword, hrest⟩ := hcut.word (startsWith_iff.mp hasks) (hfirm hasks)
  exact ⟨startsWith_iff.mpr hword, hrest⟩

theorem asks_of_cut (hcut : Cut short long) (hasks : Asks short) : Asks long := by
  obtain ⟨space, -, rfl⟩ := hcut
  exact startsWith_iff.mpr ((startsWith_iff.mp hasks).trans (prefix_append _ _))

theorem entryStep_cut (hcut : Cut short long) (hfirm : Firm long) (entries : List SummaryEntry) :
    entryStep digits entries short = entryStep digits entries long := by
  unfold entryStep readLine
  by_cases hasks : Asks long
  · obtain ⟨hshort, hquestion⟩ := asks_cut hcut hfirm hasks
    rw [if_pos (show startsWith short askedWord = true from hshort),
      if_pos (show startsWith long askedWord = true from hasks), hquestion]
  · rw [if_neg (show ¬ startsWith short askedWord = true from mt (asks_of_cut hcut) hasks),
      if_neg (show ¬ startsWith long askedWord = true from hasks), hcut.strip_eq]
    cases omittedCount digits (strip short) with
    | some n => rfl
    | none =>
      dsimp only
      cases entries.getLast? with
      | none => rfl
      | some entry => by_cases hopen : entry.omitted = 0 <;> simp [hopen]

theorem taken_cut (hcut : Cut short long) (hfirm : Firm long) (h : Taken digits entries long) :
    Taken digits entries short := by
  intro hinner
  refine h ⟨fun hasks => hinner.1 (asks_cut hcut hfirm hasks).1, ?_⟩
  rw [hcut.strip_eq]
  exact hinner.2

theorem foldl_cut {short long : List Text} (hcut : List.Forall₂ Cut short long)
    (hfirm : ∀ line ∈ long, Firm line)
    (htaken : AllTaken digits entries long) :
    AllTaken digits entries short ∧
      short.foldl (entryStep digits) entries = long.foldl (entryStep digits) entries := by
  induction hcut generalizing entries with
  | nil => exact ⟨htaken, rfl⟩
  | @cons a b _ _ hline _ ih =>
    have hb : Firm b := hfirm b mem_cons_self
    obtain ⟨hfirst, hrest⟩ := htaken
    rw [← entryStep_cut digits hline hb] at hrest
    obtain ⟨htail, heq⟩ := ih (fun line hmem => hfirm line (mem_cons_of_mem _ hmem)) hrest
    refine ⟨⟨taken_cut digits hline hb hfirst, htail⟩, ?_⟩
    rw [foldl_cons, foldl_cons, heq, entryStep_cut digits hline hb]

/-! ### Cleaned text -/

def cleanLines (text : Text) : List Text := fullLines (displayLines text)

theorem cleanLines_join (a b : Text) :
    cleanLines (a ++ '\n' :: b) = cleanLines a ++ cleanLines b := by
  have hnewline : isVisible '\n' = true := by decide
  unfold cleanLines displayLines
  rw [filter_append, filter_cons_of_pos hnewline, fullLines_normalise_join]

theorem cleanLines_intercalate (pieces : List Text) :
    cleanLines (['\n'].intercalate pieces) = pieces.flatMap cleanLines := by
  induction pieces with
  | nil => rfl
  | cons piece pieces ih =>
    cases pieces with
    | nil => simp
    | cons next pieces =>
      rw [intercalate_cons_cons, append_assoc, singleton_append, cleanLines_join,
        ih]
      simp only [flatMap_cons]

def Inline (c : Char) : Prop := isVisible c = true ∧ c ≠ '\r' ∧ c ≠ '\n'

theorem Plain.inline (h : Plain c) : Inline c := by
  obtain ⟨hvisible, hbreak⟩ := h
  simp only [isLineBreak, Bool.or_eq_false_iff, beq_eq_false_iff_ne] at hbreak
  exact ⟨hvisible, hbreak.1.2, hbreak.2⟩

theorem displayLines_of_clean (hvisible : ∀ c ∈ text, isVisible c = true) (hcr : '\r' ∉ text) :
    displayLines text = text := by
  unfold displayLines
  rw [filter_eq_self.mpr hvisible, normalise_of_not_mem hcr]

theorem cleanLines_of_inline (h : ∀ c ∈ text, Inline c) :
    cleanLines text = if strip text = [] then [] else [text] := by
  unfold cleanLines
  rw [displayLines_of_clean (fun c hc => (h c hc).1) fun hcr => (h _ hcr).2.1 rfl,
    fullLines_of_not_mem fun hnewline => (h _ hnewline).2.2 rfl]

theorem visible_displayLines (text : Text) : ∀ c ∈ displayLines text, isVisible c = true :=
  forall_mem_normalise (by decide) fun _ hc => (mem_filter.mp hc).2

theorem mem_of_mem_strip (h : c ∈ strip text) : c ∈ text := by
  unfold strip at h
  have hdrop := (dropWhile_suffix _).subset (mem_reverse.mp h)
  exact (dropWhile_suffix _).subset (mem_reverse.mp hdrop)

theorem sanitiseSummary_sanitiseSummary (text : Text) :
    sanitiseSummary (sanitiseSummary text) = sanitiseSummary text := by
  have hclean : displayLines (sanitiseSummary text) = sanitiseSummary text :=
    displayLines_of_clean (fun c hc => visible_displayLines text c (mem_of_mem_strip hc))
      fun hcr => cr_not_mem_normalise _ (mem_of_mem_strip hcr)
  unfold sanitiseSummary at hclean ⊢
  rw [hclean, strip_of_trimmed (trimmed_strip _)]

theorem length_sanitiseSummary_le (text : Text) : (sanitiseSummary text).length ≤ text.length :=
  calc (sanitiseSummary text).length
      ≤ (displayLines text).length := length_strip_le _
    _ ≤ (text.filter isVisible).length := length_normalise_le _
    _ ≤ text.length := length_filter_le _ _

theorem parseExtractive_sanitise
    (hhead : ∀ c, (displayLines text).head? = some c → isSpace c = false)
    (hfirm : ∀ line ∈ cleanLines text, Firm line) (htaken : AllTaken digits [] (cleanLines text)) :
    parseExtractive digits (sanitiseSummary text) =
      ([], (cleanLines text).foldl (entryStep digits) []) := by
  obtain ⟨hshort, heq⟩ := foldl_cut digits (fullLines_strip hhead) hfirm htaken
  rw [← show _ = (cleanLines text).foldl (entryStep digits) [] from heq]
  exact parseExtractive_of_taken digits hshort

end Lines

/-! ### Text that was shown -/

/-- A text as `display_text` leaves it. -/
def Tidy (text : Text) : Prop := (∀ c ∈ text, Plain c) ∧ Trimmed text

theorem tidy_shown (text : Text) : Tidy (shown text) := by
  refine ⟨?_, trimmed_strip _⟩
  intro c hc
  exact plain_of_mem_foldBreaks (fun d hd => (mem_filter.mp hd).2) false c (mem_of_mem_strip hc)

variable {text : Text}

theorem shown_of_tidy (h : Tidy text) : shown text = text := by
  unfold shown
  rw [filter_eq_self.mpr fun c hc => (h.1 c hc).1, foldBreaks_of_plain h.1,
    strip_of_trimmed h.2]

theorem rstrip_isPrefix (text : Text) : rstrip text <+: text := by
  obtain ⟨before, hbefore⟩ := dropWhile_suffix (l := text.reverse) isSpace
  refine ⟨before.reverse, ?_⟩
  unfold rstrip
  rw [← reverse_append, hbefore, reverse_reverse]

theorem rstrip_ne_nil {c : Char} (hc : isSpace c = false) (hmem : c ∈ text) :
    rstrip text ≠ [] := by
  intro hnil
  have hspace := dropWhile_eq_nil_iff.mp (reverse_eq_nil_iff.mp hnil) c
    (mem_reverse.mpr hmem)
  rw [hc] at hspace
  cases hspace

def Shortened (part whole : Text) : Prop :=
  ∃ front, front ≠ [] ∧ front <+: whole ∧ part = front ++ ['…']

variable {limit : Nat}

theorem clamp_cases (hlimit : 2 ≤ limit) (htext : ∀ c, text.head? = some c → isSpace c = false) :
    clamp limit text = text ∨
      ∃ front, front ≠ [] ∧ front <+: text.dropLast ∧ clamp limit text = front ++ ['…'] := by
  unfold clamp
  by_cases hlong : 0 < limit ∧ limit < text.length
  · rw [if_pos hlong]
    refine .inr ⟨_, ?_, ?_, rfl⟩
    · obtain ⟨c, cs, rfl⟩ :=
        exists_cons_of_ne_nil (ne_nil_of_length_pos (by omega : 0 < text.length))
      refine rstrip_ne_nil (htext c rfl) (c := c) ?_
      obtain ⟨k, hk⟩ : ∃ k, limit - 1 = k + 1 := ⟨limit - 2, by omega⟩
      rw [hk, take_succ_cons]
      exact mem_cons_self
    · refine (rstrip_isPrefix _).trans ?_
      rw [dropLast_eq_take]
      exact take_prefix_take_left (by omega)
  · rw [if_neg hlong]
    exact .inl rfl

theorem tidy_front {front : Text} (h : Tidy text) (hne : front ≠ []) (hfront : front <+: text) :
    Tidy (front ++ ['…']) := by
  obtain ⟨c, cs, rfl⟩ := exists_cons_of_ne_nil hne
  obtain ⟨rest, rfl⟩ := hfront
  refine ⟨?_, ?_, ?_⟩
  · intro d hd
    rcases mem_append.mp hd with hd | hd
    · exact h.1 d (mem_append_left _ hd)
    · rw [mem_singleton.mp hd]
      exact ⟨by decide, by decide⟩
  · intro d hd
    exact h.2.1 d hd
  · intro d hd
    rw [getLast?_concat] at hd
    cases hd
    decide

theorem tidy_clamp (hlimit : 2 ≤ limit) (h : Tidy text) : Tidy (clamp limit text) := by
  rcases clamp_cases hlimit h.2.1 with heq | ⟨front, hne, hfront, heq⟩
  · rw [heq]
    exact h
  · rw [heq]
    exact tidy_front h hne (hfront.trans (List.dropLast_prefix text))

theorem tidy_noText : Tidy noText := by
  refine ⟨?_, ?_, ?_⟩
  · simp only [noText, mem_cons, not_mem_nil, or_false]
    rintro c (rfl | rfl | rfl | rfl | rfl | rfl | rfl | rfl | rfl) <;> exact ⟨by decide, by decide⟩
  · intro c hc
    cases hc
    decide
  · intro c hc
    cases hc
    decide

variable {bound : Nat}

theorem tidy_asked (hbound : 2 ≤ bound) (question : Text) :
    Tidy (asked bound question) ∧ asked bound question ≠ [] := by
  unfold asked
  dsimp only
  by_cases hnil : displayString bound question = []
  · rw [if_pos hnil]
    exact ⟨tidy_noText, by decide⟩
  · rw [if_neg hnil]
    exact ⟨tidy_clamp hbound (tidy_shown question), hnil⟩

def Tells (user question : Text) : Prop :=
  (shown user = [] ∧ question = noText) ∨ (shown user ≠ [] ∧ question = shown user) ∨
    Shortened question (shown user)

theorem Tells.tidy {user question : Text} (h : Tells user question) :
    Tidy question ∧ question ≠ [] := by
  have hshown := tidy_shown user
  rcases h with ⟨-, rfl⟩ | ⟨hne, rfl⟩ | ⟨front, hne, hfront, rfl⟩
  · exact ⟨tidy_noText, by decide⟩
  · exact ⟨hshown, hne⟩
  · exact ⟨tidy_front hshown hne hfront, by simp⟩

theorem Tells.asked {bound : Nat} (hbound : 9 ≤ bound) {user question : Text}
    (h : Tells user question) : Tells user (asked bound question) := by
  obtain ⟨htidy, hne⟩ := h.tidy
  have hbound' : 2 ≤ bound := by omega
  have hasked : Chat.asked bound question = clamp bound question := by
    rcases clamp_cases hbound' htidy.2.1 with heq | ⟨front, -, -, heq⟩
    · unfold Chat.asked
      rw [displayString_eq, shown_of_tidy htidy, heq, if_neg hne]
    · unfold Chat.asked
      rw [displayString_eq, shown_of_tidy htidy, heq, if_neg (by simp)]
  rw [hasked]
  rcases clamp_cases hbound' htidy.2.1 with heq | ⟨front, hfull, hfront, heq⟩
  · rw [heq]
    exact h
  · rcases h with ⟨hnil, rfl⟩ | ⟨-, rfl⟩ | ⟨front', -, hfront', rfl⟩
    · have hshort : clamp bound noText = noText := by
        unfold clamp
        rw [if_neg]
        simp only [noText, length_cons, length_nil]
        omega
      rw [hshort]
      exact .inl ⟨hnil, rfl⟩
    · rw [heq]
      exact .inr (.inr ⟨front, hfull, hfront.trans (List.dropLast_prefix _), rfl⟩)
    · rw [dropLast_concat] at hfront
      rw [heq]
      exact .inr (.inr ⟨front, hfull, hfront.trans hfront', rfl⟩)

theorem tells_asked (hbound : 2 ≤ bound) (user : Text) : Tells user (asked bound user) := by
  have htidy := tidy_shown user
  unfold asked
  dsimp only
  rw [displayString_eq]
  by_cases hnil : shown user = []
  · have hclamp : clamp bound ([] : Text) = [] := by
      unfold clamp
      rw [if_neg (by simp)]
    rw [hnil, hclamp, if_pos rfl]
    exact .inl ⟨hnil, rfl⟩
  · rcases clamp_cases hbound htidy.2.1 with heq | ⟨front, hfull, hfront, heq⟩
    · rw [heq, if_neg hnil]
      exact .inr (.inl ⟨hnil, rfl⟩)
    · rw [heq, if_neg (by simp)]
      exact .inr (.inr ⟨front, hfull, hfront.trans (List.dropLast_prefix _), rfl⟩)

/-! ### Lines of an entry -/

section Lines

variable (digits : Digits)

def Settled (digest : Text) : Prop :=
  (∀ c ∈ digest, Inline c) ∧ ∀ c, digest.head? = some c → c = 'L'

def Unforged (digest : Text) : Prop :=
  ∀ line ∈ cleanLines (' ' :: ' ' :: digest), Inner digits line

/-- The first line of what is rendered begins with the word of `lookup_digest`. -/
def Headed (digest : Text) : Prop :=
  ∀ line, (cleanLines (' ' :: ' ' :: digest)).head? = some line → ∃ rest, strip line = 'L' :: rest

variable {line : Text} {c : Char}

theorem inline_of_mem_cleanLines {text : Text} (hline : line ∈ cleanLines text) (hc : c ∈ line) :
    Inline c := by
  obtain ⟨hmem, hne⟩ := mem_splitOn (mem_filter.mp hline).1 hc
  exact ⟨visible_displayLines text c hmem,
    fun h => Newlines.cr_not_mem_normalise _ (h ▸ hmem), hne⟩

variable {rest : Text}

theorem inner_of_strip (hstrip : strip line = c :: rest) (hc : c ≠ '-') : Inner digits line := by
  refine ⟨?_, ?_⟩
  · intro hasks
    obtain ⟨more, rfl⟩ := startsWith_iff.mp hasks
    obtain ⟨rest', hrest'⟩ := strip_cons_of_not_space (c := '-') (by decide)
      ([' ', 'A', 's', 'k', 'e', 'd', ':', ' '] ++ more)
    have hhead := congrArg List.head? (hstrip.symm.trans hrest')
    exact hc (Option.some.inj hhead)
  · rw [hstrip]
    unfold omittedCount
    split
    · rename_i heq
      exact absurd (List.cons.inj heq).1 hc
    · rfl

variable {entry : SummaryEntry}

theorem foldl_inner {lines : List Text} (hlines : ∀ line ∈ lines, Inner digits line)
    (entries : List SummaryEntry) (hopen : entry.omitted = 0) :
    ∃ entry', lines.foldl (entryStep digits) (entries ++ [entry]) = entries ++ [entry'] ∧
      entry' = lines.foldl (fun e line => e.addLine (strip line)) entry ∧
      AllTaken digits (entries ++ [entry]) lines := by
  induction lines generalizing entry with
  | nil => exact ⟨entry, rfl, rfl, trivial⟩
  | cons line lines ih =>
    have hline := hlines line mem_cons_self
    have hstep : entryStep digits (entries ++ [entry]) line =
        entries ++ [entry.addLine (strip line)] := entryStep_inner digits hline hopen
    have hkeep : (entry.addLine (strip line)).omitted = 0 := by
      unfold SummaryEntry.addLine
      split
      · exact hopen
      · split
        · exact hopen
        · exact hopen
    obtain ⟨entry', hfold, heq, htaken⟩ := ih (fun x hx => hlines x (mem_cons_of_mem _ hx)) hkeep
    refine ⟨entry', ?_, heq, ?_, ?_⟩
    · rw [foldl_cons, hstep, hfold]
    · intro _
      exact ⟨entry, by simp, hopen⟩
    · rw [hstep]
      exact htaken

theorem addLine_same (entry : SummaryEntry) (body : Text) :
    (entry.addLine body).question = entry.question ∧
      (entry.addLine body).omitted = entry.omitted := by
  unfold SummaryEntry.addLine
  split
  · exact ⟨rfl, rfl⟩
  · split <;> exact ⟨rfl, rfl⟩

theorem foldl_addLine_same (lines : List Text) (entry : SummaryEntry) :
    (lines.foldl (fun e line => e.addLine (strip line)) entry).question = entry.question ∧
      (lines.foldl (fun e line => e.addLine (strip line)) entry).omitted = entry.omitted := by
  induction lines generalizing entry with
  | nil => exact ⟨rfl, rfl⟩
  | cons line lines ih =>
    obtain ⟨hquestion, homitted⟩ := addLine_same entry (strip line)
    obtain ⟨hquestion', homitted'⟩ := ih (entry.addLine (strip line))
    exact ⟨hquestion'.trans hquestion, homitted'.trans homitted⟩

theorem inline_addLine (hline : ∀ c ∈ line, Inline c) (hdigest : ∀ c ∈ entry.digest, Inline c) :
    ∀ c ∈ (entry.addLine (strip line)).digest, Inline c := by
  unfold SummaryEntry.addLine
  split
  · exact hdigest
  · split
    · intro c hc
      rcases mem_append.mp (mem_of_mem_strip hc) with hc | hc
      · exact hdigest c hc
      · rcases mem_cons.mp hc with rfl | hc
        · exact ⟨by decide, by decide, by decide⟩
        · exact hline c (mem_of_mem_strip hc)
    · exact hdigest

theorem addLine_first (hnil : entry.digest = []) (hstrip : strip line = 'L' :: rest) :
    (entry.addLine (strip line)).digest = 'L' :: rest := by
  have hword : ¬ startsWith (strip line) answeredWord = true := by
    intro h
    obtain ⟨more, hmore⟩ := startsWith_iff.mp h
    rw [hstrip] at hmore
    exact absurd (List.cons.inj hmore).1 (by decide)
  unfold SummaryEntry.addLine
  rw [if_neg fun h => hword h.1, if_pos (by rw [hstrip]; simp)]
  dsimp only
  rw [hnil, nil_append, strip_space_cons (by decide), strip_of_trimmed (trimmed_strip _), hstrip]

variable {digest : Text}

theorem addLine_later (hdigest : entry.digest = 'L' :: digest) (body : Text) :
    ∃ rest, (entry.addLine body).digest = 'L' :: rest := by
  unfold SummaryEntry.addLine
  split
  · exact ⟨digest, hdigest⟩
  · split
    · dsimp only
      rw [hdigest, cons_append]
      exact strip_cons_of_not_space (by decide) _
    · exact ⟨digest, hdigest⟩

theorem settled_foldl {lines : List Text} (hlines : ∀ line ∈ lines, ∀ c ∈ line, Inline c)
    (hfirst : ∀ line, lines.head? = some line → ∃ rest, strip line = 'L' :: rest)
    (hnil : entry.digest = []) :
    Settled (lines.foldl (fun e line => e.addLine (strip line)) entry).digest := by
  have hlater : ∀ (lines : List Text) (entry : SummaryEntry),
      (∀ line ∈ lines, ∀ c ∈ line, Inline c) → (∀ c ∈ entry.digest, Inline c) →
      (∃ rest, entry.digest = 'L' :: rest) →
      Settled (lines.foldl (fun e line => e.addLine (strip line)) entry).digest := by
    intro lines
    induction lines with
    | nil =>
      rintro entry - hinline ⟨rest, hrest⟩
      refine ⟨hinline, ?_⟩
      intro c hc
      rw [foldl_nil, hrest] at hc
      exact (Option.some.inj hc).symm
    | cons line lines ih =>
      rintro entry hlines hinline ⟨rest, hrest⟩
      exact ih (entry.addLine (strip line)) (fun x hx => hlines x (mem_cons_of_mem _ hx))
        (inline_addLine (hlines line mem_cons_self) hinline) (addLine_later hrest _)
  cases lines with
  | nil =>
    rw [foldl_nil, hnil]
    exact ⟨fun c hc => (by cases hc), fun c hc => (by cases hc)⟩
  | cons line lines =>
    obtain ⟨rest, hrest⟩ := hfirst line rfl
    refine hlater lines (entry.addLine (strip line)) (fun x hx => hlines x (mem_cons_of_mem _ hx))
      (inline_addLine (hlines line mem_cons_self) ?_) ⟨rest, addLine_first hnil hrest⟩
    rw [hnil]
    exact fun c hc => (by cases hc)

theorem Settled.lines (h : Settled digest) : Unforged digits digest ∧ Headed digest := by
  have hspace : Inline ' ' := ⟨by decide, by decide, by decide⟩
  have hinline : ∀ c ∈ ' ' :: ' ' :: digest, Inline c := by
    intro c hc
    rcases mem_cons.mp hc with rfl | hc
    · exact hspace
    · rcases mem_cons.mp hc with rfl | hc
      · exact hspace
      · exact h.1 c hc
  cases digest with
  | nil =>
    have hnone : cleanLines [' ', ' '] = [] := by
      rw [cleanLines_of_inline hinline, if_pos (by decide)]
    refine ⟨?_, ?_⟩
    · intro line hline
      rw [hnone] at hline
      cases hline
    · intro line hline
      rw [hnone] at hline
      cases hline
  | cons c digest =>
    obtain rfl : c = 'L' := h.2 c rfl
    obtain ⟨rest, hrest⟩ := strip_cons_of_not_space (c := 'L') (by decide) digest
    have hstrip : strip (' ' :: ' ' :: 'L' :: digest) = 'L' :: rest := by
      rw [strip_space_cons (by decide), strip_space_cons (by decide), hrest]
    have hone : cleanLines (' ' :: ' ' :: 'L' :: digest) = [' ' :: ' ' :: 'L' :: digest] := by
      rw [cleanLines_of_inline hinline, if_neg (by rw [hstrip]; simp)]
    refine ⟨?_, ?_⟩
    · intro line hline
      rw [hone, mem_singleton] at hline
      rw [hline]
      exact inner_of_strip digits hstrip (by decide)
    · intro line hline
      rw [hone] at hline
      cases hline
      exact ⟨rest, hstrip⟩

theorem headed_of_head (h : ∀ c, digest.head? = some c → c = 'L') : Headed digest := by
  intro line hline
  cases digest with
  | nil =>
    have hnone : cleanLines [' ', ' '] = [] := by decide
    rw [hnone] at hline
    cases hline
  | cons c digest =>
    obtain rfl : c = 'L' := h c rfl
    have hdisplay : displayLines (' ' :: ' ' :: 'L' :: digest) =
        ' ' :: ' ' :: 'L' :: displayLines digest := by
      unfold displayLines
      rw [filter_cons_of_pos (by decide), filter_cons_of_pos (by decide),
        filter_cons_of_pos (by decide), normalise_cons (by decide), normalise_cons (by decide),
        normalise_cons (by decide)]
    obtain ⟨first, rest, hsplit⟩ :=
      exists_cons_of_ne_nil (splitOn_ne_nil '\n' (displayLines digest))
    have hlines : (displayLines (' ' :: ' ' :: 'L' :: digest)).splitOn '\n' =
        (' ' :: ' ' :: 'L' :: first) :: rest := by
      rw [hdisplay]
      simp only [splitOn_cons_eq_if_modifyHead, hsplit]
      rfl
    obtain ⟨more, hmore⟩ := strip_cons_of_not_space (c := 'L') (by decide) first
    have hstrip : strip (' ' :: ' ' :: 'L' :: first) = 'L' :: more := by
      rw [strip_space_cons (by decide), strip_space_cons (by decide), hmore]
    unfold cleanLines fullLines at hline
    rw [hlines, filter_cons_of_pos (by rw [hstrip]; simp)] at hline
    cases hline
    exact ⟨more, hstrip⟩

theorem lookupDigest_head {key : Text} {steps : List Obj} {limit : Nat} (hlimit : 2 ≤ limit)
    (h : lookupDigest key steps limit = some digest) : ∀ c, digest.head? = some c → c = 'L' := by
  unfold lookupDigest at h
  obtain ⟨parts, -, rfl⟩ := Option.map_eq_some_iff.mp h
  intro c hc
  by_cases hnil : parts = []
  · rw [if_pos hnil] at hc
    cases hc
  · rw [if_neg hnil] at hc
    dsimp only at hc
    split at hc
    · exact (Option.some.inj hc).symm
    · obtain ⟨k, hk⟩ : ∃ k, limit + (List.map (fun lookup => (stepNumber lookup.1).length)
          (steps.filterMap fun step => (toolOf step).map fun tool => (step, tool))).sum -
            1 = k + 1 :=
        ⟨limit + (List.map (fun lookup => (stepNumber lookup.1).length)
          (steps.filterMap fun step => (toolOf step).map fun tool => (step, tool))).sum -
            2, by omega⟩
      rw [hk, lookupsWord, cons_append, cons_append, take_succ_cons] at hc
      generalize List.take k _ = tail at hc
      obtain ⟨rest, hrest⟩ : ∃ rest, rstrip ('L' :: tail) = 'L' :: rest := by
        have hne : rstrip ('L' :: tail) ≠ [] :=
          rstrip_ne_nil (c := 'L') (by decide) mem_cons_self
        obtain ⟨d, ds, hd⟩ := exists_cons_of_ne_nil hne
        have hpre := rstrip_isPrefix ('L' :: tail)
        rw [hd] at hpre ⊢
        obtain ⟨more, hmore⟩ := hpre
        rw [cons_append] at hmore
        exact ⟨ds, by rw [(List.cons.inj hmore).1]⟩
      rw [hrest] at hc
      exact (Option.some.inj hc).symm

end Lines

end AgenticKibana.Chat
