import AgenticKibana.Chat.SummaryEntries

/-!
# Rendering and reading

Every entry that is rendered is read back: a marker with its number, an exchange with the question
that was shown.
-/

namespace AgenticKibana.Chat

open AgenticKibana.Library List
open AgenticKibana.Library.TextLines
open AgenticKibana.Library.FullLines
open AgenticKibana.Receivers (Digits isDecimal decimalValue)

instance (c : Char) : Decidable (Inline c) := inferInstanceAs (Decidable (_ ∧ _))

theorem inline_of_all {text : Text} (h : text.all (fun c => decide (Inline c)) = true) :
    ∀ c ∈ text, Inline c :=
  fun c hc => of_decide_eq_true (all_eq_true.mp h c hc)

theorem inline_of_isDigit {c : Char} (h : c.isDigit = true) : Inline c := by
  have hdigits : ∀ k < 10, Inline (Nat.digitChar k) := by decide
  obtain ⟨k, hk, rfl⟩ : ∃ k < 10, c = Nat.digitChar k := by
    simp only [Char.isDigit, Bool.and_eq_true, decide_eq_true_eq] at h
    have hlow : 48 ≤ c.toNat := h.1
    have hhigh : c.toNat ≤ 57 := h.2
    refine ⟨c.toNat - 48, by omega, ?_⟩
    have hchar : ∀ n, 48 ≤ n → n ≤ 57 → Nat.digitChar (n - 48) = Char.ofNat n := by decide
    rw [hchar c.toNat hlow hhigh, Char.ofNat_toNat]
  exact hdigits k hk

theorem inline_append {a b : Text} (ha : ∀ c ∈ a, Inline c) (hb : ∀ c ∈ b, Inline c) :
    ∀ c ∈ a ++ b, Inline c := by
  intro c hc
  rcases mem_append.mp hc with hc | hc
  · exact ha c hc
  · exact hb c hc

section Reading

variable (digits : Digits)

theorem value_digitChar {k : Nat} (hk : k < 10) : digits.value (Nat.digitChar k) = some k := by
  have htable : ∀ k < 10, (Nat.digitChar k).toNat < 128 ∧ (Nat.digitChar k).isDigit = true ∧
      (Nat.digitChar k).toNat - 48 = k := by decide
  obtain ⟨hascii, hdigit, hvalue⟩ := htable k hk
  rw [digits.ascii _ hascii, if_pos hdigit, hvalue]

theorem decimalValue_toDigits (n : Nat) : decimalValue digits (Nat.toDigits 10 n) = n := by
  induction n using Nat.strongRecOn with
  | ind n ih =>
    by_cases hlt : n < 10
    · rw [Nat.toDigits_of_lt_base hlt]
      simp [decimalValue, value_digitChar digits hlt]
    · have hinit := ih (n / 10) (by omega)
      unfold decimalValue at hinit ⊢
      rw [Nat.toDigits_of_base_le (by decide) (by omega), foldl_append, hinit]
      simp only [foldl_cons, foldl_nil, value_digitChar digits (Nat.mod_lt n (by decide)),
        Option.getD_some]
      omega

theorem isDecimal_toDigits (n : Nat) : ∀ c ∈ Nat.toDigits 10 n, isDecimal digits c = true := by
  intro c hc
  have hdigit := Json.digits_toDigits n c hc
  have hascii : c.toNat < 128 := by
    simp only [Char.isDigit, Bool.and_eq_true, decide_eq_true_eq] at hdigit
    have hhigh : c.toNat ≤ 57 := hdigit.2
    omega
  unfold isDecimal
  rw [digits.ascii c hascii, if_pos hdigit]
  rfl

def markerTail (n : Nat) : Text := exchangeWord ++ (if n = 1 then markerEnd else 's' :: markerEnd)

theorem markerTail_cons (n : Nat) : ∃ rest, markerTail n = ' ' :: rest := ⟨_, rfl⟩

theorem omittedCount_marker (n : Nat) :
    omittedCount digits (['-', ' ', '('] ++ Nat.toDigits 10 n ++ markerTail n) = some n := by
  have hspace : isDecimal digits ' ' = false := by
    unfold isDecimal
    rw [digits.ascii ' ' (by decide), if_neg (by decide)]
    rfl
  obtain ⟨rest, hrest⟩ := markerTail_cons n
  have htake : (Nat.toDigits 10 n ++ markerTail n).takeWhile (isDecimal digits) =
      Nat.toDigits 10 n := by
    rw [takeWhile_append_of_pos (isDecimal_toDigits digits n), hrest, takeWhile_cons,
      if_neg (by simp [hspace]), append_nil]
  have hdrop : (Nat.toDigits 10 n ++ markerTail n).dropWhile (isDecimal digits) =
      markerTail n := by
    rw [dropWhile_append_of_pos (isDecimal_toDigits digits n), hrest, dropWhile_cons,
      if_neg (by simp [hspace])]
  have htail : markerTail n = exchangeWord ++ markerEnd ∨
      markerTail n = exchangeWord ++ 's' :: markerEnd := by
    by_cases hone : n = 1 <;> simp [markerTail, hone]
  rw [append_assoc]
  simp only [cons_append, nil_append, omittedCount]
  rw [htake, hdrop, if_pos ⟨Nat.toDigits_ne_nil, htail⟩, decimalValue_toDigits]

theorem inline_marker (n : Nat) :
    ∀ c ∈ ['-', ' ', '('] ++ Nat.toDigits 10 n ++ markerTail n, Inline c := by
  refine inline_append (inline_append (inline_of_all (by decide)) ?_) ?_
  · intro c hc
    exact inline_of_isDigit (Json.digits_toDigits n c hc)
  · by_cases hone : n = 1
    · rw [markerTail, if_pos hone]
      exact inline_of_all (by decide)
    · rw [markerTail, if_neg hone]
      exact inline_of_all (by decide)

theorem trimmed_marker (n : Nat) :
    Trimmed (['-', ' ', '('] ++ Nat.toDigits 10 n ++ markerTail n) := by
  refine ⟨?_, ?_⟩
  · intro c hc
    cases hc
    decide
  · intro c hc
    have hlast : (markerTail n).getLast? = some ')' := by
      by_cases hone : n = 1
      · rw [markerTail, if_pos hone]
        decide
      · rw [markerTail, if_neg hone]
        decide
    rw [getLast?_append, hlast] at hc
    cases hc
    decide

/-! ### Entries -/

structure ReadAs (question : Nat) (entry entry' : SummaryEntry) : Prop where
  omitted : entry'.omitted = entry.omitted
  asked : entry.omitted = 0 → entry'.question = asked question entry.question
  settled : entry.omitted = 0 → Settled entry'.digest

structure ReadBack (lines : List Text) (question : Nat) (entries : List SummaryEntry)
    (entry entry' : SummaryEntry) : Prop where
  fold : lines.foldl (entryStep digits) entries = entries ++ [entry']
  taken : AllTaken digits entries lines
  firm : ∀ line ∈ lines, Firm line
  readAs : ReadAs question entry entry'

variable {entry : SummaryEntry}

theorem read_marker (hmarker : entry.omitted ≠ 0) (question answer : Nat) (digest : Bool)
    (entries : List SummaryEntry) :
    ReadBack digits (cleanLines (entry.render question answer digest)) question entries entry
      { omitted := entry.omitted } := by
  have hrender : entry.render question answer digest =
      ['-', ' ', '('] ++ Nat.toDigits 10 entry.omitted ++ markerTail entry.omitted := by
    unfold SummaryEntry.render
    rw [if_pos hmarker]
    rfl
  have hstrip := strip_of_trimmed (trimmed_marker entry.omitted)
  have hlines : cleanLines (entry.render question answer digest) =
      [['-', ' ', '('] ++ Nat.toDigits 10 entry.omitted ++ markerTail entry.omitted] := by
    rw [hrender, cleanLines_of_inline (inline_marker entry.omitted), hstrip, if_neg (by simp)]
  have hasks : ¬ startsWith (['-', ' ', '('] ++ Nat.toDigits 10 entry.omitted ++
      markerTail entry.omitted) askedWord = true := by
    simp [startsWith, askedWord]
  have hcount := omittedCount_marker digits entry.omitted
  rw [hlines]
  refine ⟨?_, ⟨?_, trivial⟩, ?_, ⟨rfl, fun h => absurd h hmarker, fun h => absurd h hmarker⟩⟩
  · rw [foldl_cons, foldl_nil]
    unfold entryStep readLine
    rw [if_neg hasks, hstrip, hcount]
  · intro hinner
    rw [Inner, hstrip, hcount] at hinner
    cases hinner.2
  · intro line hline
    rw [mem_singleton.mp hline]
    exact fun h => absurd h hasks

theorem read_asked {question : Text} (htidy : Tidy question) (hfull : question ≠ [])
    (entries : List SummaryEntry) :
    cleanLines (askedWord ++ question) = [askedWord ++ question] ∧
      entryStep digits entries (askedWord ++ question) = entries ++ [{ question := question }] ∧
      Asks (askedWord ++ question) ∧ Firm (askedWord ++ question) := by
  have hstrip : strip ((askedWord ++ question).drop askedWord.length) = question := by
    rw [drop_left, strip_of_trimmed htidy.2]
  have hasks : startsWith (askedWord ++ question) askedWord = true :=
    startsWith_iff.mpr (prefix_append _ _)
  have hinline : ∀ c ∈ askedWord ++ question, Inline c :=
    inline_append (inline_of_all (by decide)) fun c hc => (htidy.1 c hc).inline
  refine ⟨?_, ?_, hasks, ?_⟩
  · obtain ⟨rest, hrest⟩ := strip_cons_of_not_space (c := '-') (by decide)
      ([' ', 'A', 's', 'k', 'e', 'd', ':', ' '] ++ question)
    rw [cleanLines_of_inline hinline, if_neg]
    exact fun hnil => by cases hnil.symm.trans hrest
  · unfold entryStep readLine
    rw [if_pos hasks, hstrip]
  · intro _
    rw [hstrip]
    exact hfull

theorem firstSentences_said (text : Text) (limit : Nat) :
    (∀ c ∈ firstSentences text limit, Inline c) ∧
      (firstSentences text limit ≠ [] → strip (firstSentences text limit) ≠ []) := by
  have hflat : displayString 0 text = shown text := by rw [displayString_eq, clamp_zero]
  have hplain : ∀ c ∈ shown text, Inline c := fun c hc => ((tidy_shown text).1 c hc).inline
  have hdots : ∀ front : Text, (∀ c ∈ front, c ∈ shown text) →
      (∀ c ∈ front ++ [' ', '…'], Inline c) ∧ strip (front ++ [' ', '…']) ≠ [] := by
    intro front hfront
    refine ⟨inline_append (fun c hc => hplain c (hfront c hc)) (inline_of_all (by decide)), ?_⟩
    intro hblank
    have hspace := strip_eq_nil_iff.mp hblank '…' (by simp)
    exact absurd hspace (by decide)
  unfold firstSentences
  rw [hflat]
  by_cases hshort : (shown text).length ≤ limit
  · simp only [if_pos hshort]
    refine ⟨hplain, fun hne hblank => hne ?_⟩
    rwa [strip_of_trimmed (tidy_shown text).2] at hblank
  · simp only [if_neg hshort]
    have hcut : ∀ c ∈ (shown text).take limit, c ∈ shown text := fun c hc => mem_of_mem_take hc
    have hrstrip : ∀ c ∈ rstrip ((shown text).take limit), c ∈ shown text := fun c hc =>
      hcut c ((rstrip_isPrefix _).subset hc)
    generalize ([rfind ['.', ' '] ((shown text).take limit),
      rfind ['!', ' '] ((shown text).take limit),
      rfind ['?', ' '] ((shown text).take limit)].reduceOption.max?) = stop
    cases stop with
    | none => exact ⟨(hdots _ hrstrip).1, fun _ => (hdots _ hrstrip).2⟩
    | some i =>
      dsimp only
      by_cases hi : limit / 3 ≤ i
      · rw [if_pos hi]
        have hfront : ∀ c ∈ ((shown text).take limit).take (i + 1), c ∈ shown text := fun c hc =>
          hcut c (mem_of_mem_take hc)
        exact ⟨(hdots _ hfront).1, fun _ => (hdots _ hfront).2⟩
      · rw [if_neg hi]
        exact ⟨(hdots _ hrstrip).1, fun _ => (hdots _ hrstrip).2⟩

theorem read_said {said : Text} (hinline : ∀ c ∈ said, Inline c) (hfull : strip said ≠ []) :
    cleanLines (' ' :: ' ' :: answeredWord ++ said) = [' ' :: ' ' :: answeredWord ++ said] ∧
      Inner digits (' ' :: ' ' :: answeredWord ++ said) ∧
      ∀ question : Text, ∃ answer,
        ({ question := question } : SummaryEntry).addLine
          (strip (' ' :: ' ' :: answeredWord ++ said)) =
          { question := question, answer := answer } := by
  have hstrip : strip (' ' :: ' ' :: answeredWord ++ said) = strip (answeredWord ++ said) := by
    rw [cons_append, cons_append, strip_space_cons (by decide), strip_space_cons (by decide)]
  have hhead : ∀ c, (answeredWord ++ said).head? = some c → isSpace c = false := by
    intro c hc
    cases hc
    decide
  have hword := (cut_strip hhead).word (prefix_append answeredWord said)
    (by rw [drop_left]; exact hfull)
  obtain ⟨rest, hrest⟩ := hword.1
  have hbody : strip (' ' :: ' ' :: answeredWord ++ said) =
      'A' :: (['n', 's', 'w', 'e', 'r', 'e', 'd', ':', ' '] ++ rest) := by
    rw [hstrip, ← hrest]
    rfl
  refine ⟨?_, inner_of_strip digits hbody (by decide), ?_⟩
  · have hall : ∀ c ∈ ' ' :: ' ' :: answeredWord ++ said, Inline c :=
      inline_append (inline_of_all (by decide)) hinline
    rw [cleanLines_of_inline hall, if_neg (by rw [hbody]; simp)]
  · intro question
    refine ⟨strip ((strip (' ' :: ' ' :: answeredWord ++ said)).drop answeredWord.length), ?_⟩
    have hstarts : startsWith (strip (' ' :: ' ' :: answeredWord ++ said)) answeredWord = true := by
      rw [hstrip]
      exact startsWith_iff.mpr hword.1
    unfold SummaryEntry.addLine
    rw [if_pos ⟨hstarts, rfl⟩]

variable {question : Nat} {digest : Bool}

theorem read_exchange (hopen : entry.omitted = 0) (hquestion : 2 ≤ question) (answer : Nat)
    (hdigest : digest = true → Unforged digits entry.digest ∧ Headed entry.digest)
    (entries : List SummaryEntry) :
    ∃ entry', ReadBack digits (cleanLines (entry.render question answer digest)) question entries
      entry entry' := by
  obtain ⟨htidy, hfull⟩ := tidy_asked hquestion entry.question
  obtain ⟨haskedLines, haskedStep, hasks, hfirm⟩ := read_asked digits htidy hfull entries
  obtain ⟨said, hsaid, hsaidInline, hsaidFull⟩ : ∃ said,
      said = (if 0 < answer then firstSentences entry.answer answer else []) ∧
        (∀ c ∈ said, Inline c) ∧ (said ≠ [] → strip said ≠ []) := by
    by_cases hanswer : 0 < answer
    · exact ⟨_, (if_pos hanswer).symm, firstSentences_said entry.answer answer⟩
    · exact ⟨[], (if_neg hanswer).symm, fun c hc => (by cases hc), fun h => absurd rfl h⟩
  -- the lines behind the question
  let saidLines : List Text := if said = [] then [] else [' ' :: ' ' :: answeredWord ++ said]
  let digestLines : List Text :=
    if digest = true ∧ entry.digest ≠ [] then cleanLines (' ' :: ' ' :: entry.digest) else []
  have hlines : cleanLines (entry.render question answer digest) =
      (askedWord ++ asked question entry.question) :: (saidLines ++ digestLines) := by
    unfold SummaryEntry.render
    rw [if_neg (by simp [hopen])]
    dsimp only
    rw [← hsaid, cleanLines_intercalate, flatMap_append, flatMap_append,
      flatMap_singleton, haskedLines, append_assoc, singleton_append]
    congr 2
    · by_cases hnil : said = []
      · simp [saidLines, hnil]
      · simp only [saidLines, if_neg hnil, flatMap_singleton]
        exact (read_said digits hsaidInline (hsaidFull hnil)).1
    · by_cases hshow : digest = true ∧ entry.digest ≠ []
      · simp only [digestLines, if_pos hshow, flatMap_singleton]
      · simp [digestLines, if_neg hshow]
  have hdigestInner : ∀ line ∈ digestLines, Inner digits line := by
    intro line hline
    by_cases hshow : digest = true ∧ entry.digest ≠ []
    · simp only [digestLines, if_pos hshow] at hline
      exact (hdigest hshow.1).1 line hline
    · simp [digestLines, if_neg hshow] at hline
  have hdigestFirst : ∀ line, digestLines.head? = some line → ∃ rest, strip line = 'L' :: rest := by
    intro line hline
    by_cases hshow : digest = true ∧ entry.digest ≠ []
    · simp only [digestLines, if_pos hshow] at hline
      exact (hdigest hshow.1).2 line hline
    · simp [digestLines, if_neg hshow] at hline
  have hdigestInline : ∀ line ∈ digestLines, ∀ c ∈ line, Inline c := by
    intro line hline c hc
    by_cases hshow : digest = true ∧ entry.digest ≠ []
    · simp only [digestLines, if_pos hshow] at hline
      exact inline_of_mem_cleanLines hline hc
    · simp [digestLines, if_neg hshow] at hline
  have hinner : ∀ line ∈ saidLines ++ digestLines, Inner digits line := by
    intro line hline
    rcases mem_append.mp hline with hline | hline
    · by_cases hnil : said = []
      · simp [saidLines, hnil] at hline
      · simp only [saidLines, if_neg hnil, mem_singleton] at hline
        rw [hline]
        exact (read_said digits hsaidInline (hsaidFull hnil)).2.1
    · exact hdigestInner line hline
  have hasked : ({ question := asked question entry.question } : SummaryEntry).omitted = 0 := rfl
  obtain ⟨entry', hfold, heq, htaken⟩ := foldl_inner digits hinner entries hasked
  obtain ⟨hsame, homitted⟩ := foldl_addLine_same (saidLines ++ digestLines)
    { question := asked question entry.question }
  have hsettled : Settled entry'.digest := by
    rw [heq, foldl_append]
    by_cases hnil : said = []
    · simp only [saidLines, if_pos hnil, foldl_nil]
      exact settled_foldl hdigestInline hdigestFirst rfl
    · simp only [saidLines, if_neg hnil, foldl_cons, foldl_nil]
      obtain ⟨answer', hanswer'⟩ := (read_said digits hsaidInline (hsaidFull hnil)).2.2
        (asked question entry.question)
      rw [hanswer']
      exact settled_foldl hdigestInline hdigestFirst rfl
  rw [hlines]
  refine ⟨entry', ?_, ⟨fun hline => absurd hasks hline.1, ?_⟩, ?_, ?_, ?_, fun _ => hsettled⟩
  · rw [foldl_cons, haskedStep, hfold]
  · rw [haskedStep]
    exact htaken
  · intro line hline
    rcases mem_cons.mp hline with rfl | hline
    · exact hfirm
    · exact fun h => absurd h (hinner line hline).1
  · rw [heq, homitted, hopen]
  · intro _
    rw [heq, hsame]

variable {rendered : List SummaryEntry}

/-- **Every entry is read back**: with its number, or its question as it was shown. -/
theorem read_entries (hquestion : 2 ≤ question) (answer : Nat)
    (hdigest : digest = true → ∀ entry ∈ rendered, entry.omitted = 0 →
      Unforged digits entry.digest ∧ Headed entry.digest) (entries : List SummaryEntry) :
    ∃ read, (rendered.flatMap fun entry => cleanLines (entry.render question answer digest)).foldl
        (entryStep digits) entries = entries ++ read ∧
      AllTaken digits entries
        (rendered.flatMap fun entry => cleanLines (entry.render question answer digest)) ∧
      (∀ line ∈ rendered.flatMap fun entry => cleanLines (entry.render question answer digest),
        Firm line) ∧
      List.Forall₂ (ReadAs question) rendered read := by
  induction rendered generalizing entries with
  | nil => exact ⟨[], by simp, trivial, fun line hline => (by cases hline), .nil⟩
  | cons entry rendered ih =>
    obtain ⟨entry', hback⟩ : ∃ entry', ReadBack digits
        (cleanLines (entry.render question answer digest)) question entries entry entry' := by
      by_cases hopen : entry.omitted = 0
      · exact read_exchange digits hopen hquestion answer
          (fun h => hdigest h entry mem_cons_self hopen) entries
      · exact ⟨_, read_marker digits hopen question answer digest entries⟩
    obtain ⟨read, hfold, htaken, hfirm, hread⟩ :=
      ih (fun h x hx => hdigest h x (mem_cons_of_mem _ hx)) (entries ++ [entry'])
    refine ⟨entry' :: read, ?_, ?_, ?_, .cons hback.readAs hread⟩
    · rw [flatMap_cons, foldl_append, hback.fold, hfold, append_assoc]
      rfl
    · rw [flatMap_cons, allTaken_append, hback.fold]
      exact ⟨hback.taken, htaken⟩
    · intro line hline
      rw [flatMap_cons] at hline
      rcases mem_append.mp hline with hline | hline
      · exact hback.firm line hline
      · exact hfirm line hline

theorem parseExtractive_render (hquestion : 2 ≤ question) (answer : Nat)
    (hdigest : digest = true → ∀ entry ∈ rendered, entry.omitted = 0 →
      Unforged digits entry.digest ∧ Headed entry.digest) : ∃ read, parseExtractive digits
        (sanitiseSummary (renderEntries [] rendered question answer digest)) = ([], read) ∧
      List.Forall₂ (ReadAs question) rendered read := by
  obtain ⟨read, hfold, htaken, hfirm, hread⟩ :=
    read_entries digits hquestion answer hdigest []
  have hlines : cleanLines (renderEntries [] rendered question answer digest) =
      rendered.flatMap fun entry => cleanLines (entry.render question answer digest) := by
    unfold renderEntries
    rw [if_pos rfl, nil_append, cleanLines_intercalate, flatMap_map]
  have hhead : ∀ c, (displayLines (renderEntries
    [] rendered question answer digest)).head? = some c →
      isSpace c = false := by
    have hdash : ∀ rest : Text, ∀ c, (displayLines ('-' :: rest)).head? = some c →
        isSpace c = false := by
      intro rest c hc
      unfold displayLines at hc
      rw [filter_cons_of_pos (by decide), normalise_cons (by decide)] at hc
      cases hc
      decide
    have hfirst : ∀ entry : SummaryEntry, ∃ rest,
      entry.render question answer digest = '-' :: rest := by
      intro entry
      unfold SummaryEntry.render
      by_cases hopen : entry.omitted = 0
      · rw [if_neg (by simp [hopen])]
        dsimp only
        rw [append_assoc, singleton_append]
        generalize (_ ++ _ : List Text) = more
        cases more with
        | nil | cons next more => exact ⟨_, rfl⟩
      · rw [if_pos hopen]
        exact ⟨_, rfl⟩
    cases rendered with
    | nil =>
      intro c hc
      cases hc
    | cons entry rendered =>
      obtain ⟨rest, hrest⟩ := hfirst entry
      unfold renderEntries
      rw [if_pos rfl, nil_append, map_cons, hrest]
      cases rendered with
      | nil => exact hdash rest
      | cons next rendered => exact hdash _
  refine ⟨read, ?_, hread⟩
  rw [parseExtractive_sanitise digits hhead (by rw [hlines]; exact hfirm)
    (by rw [hlines]; exact htaken), hlines, hfold]
  rfl

end Reading

end AgenticKibana.Chat
