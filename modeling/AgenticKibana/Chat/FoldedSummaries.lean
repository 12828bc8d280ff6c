import AgenticKibana.Chat.SummaryRendering

/-!
# Every folded exchange is accounted for

A summary has an entry for an exchange, or counts it in a marker.  That holds over any number of
folds, as long as each renders its entries within the bound, so that the text is not cut, and no
line of the lookups it shows reads as an entry or a marker.
-/

namespace AgenticKibana.Chat

open AgenticKibana.Library List
open AgenticKibana.Library.TextLines
open AgenticKibana.Library.FullLines
open AgenticKibana.Receivers (Digits)

/-! ### Accounts -/

def SummaryEntry.tally (entry : SummaryEntry) : Nat :=
  if entry.omitted = 0 then 1 else entry.omitted

structure Recounts (stands : SummaryEntry → PriorExchange → Prop) (entries : List SummaryEntry)
    (exchanges : List PriorExchange) : Prop where
  counted : (entries.map SummaryEntry.tally).sum = exchanges.length
  kept : ∃ kept : List PriorExchange, kept.Sublist exchanges ∧ kept.head? = exchanges.head? ∧
    kept.getLast? = exchanges.getLast? ∧ List.Forall₂ stands (realEntries entries) kept

def Shows (entry : SummaryEntry) (exchange : PriorExchange) : Prop :=
  Tells exchange.user entry.question

def Carries (entry : SummaryEntry) (exchange : PriorExchange) : Prop :=
  entry.question = exchange.user ∨ Shows entry exchange

theorem realEntries_append (front back : List SummaryEntry) :
    realEntries (front ++ back) = realEntries front ++ realEntries back :=
  filter_append ..

variable {entry : SummaryEntry}

theorem realEntries_marker (h : entry.omitted ≠ 0) (entries : List SummaryEntry) :
    realEntries (entry :: entries) = realEntries entries :=
  filter_cons_of_neg (by simp [h])

theorem sum_tally (entries : List SummaryEntry) :
    (entries.map SummaryEntry.tally).sum =
      (realEntries entries).length + (entries.map SummaryEntry.omitted).sum := by
  induction entries with
  | nil => rfl
  | cons entry entries ih =>
    unfold realEntries at ih ⊢
    by_cases hopen : entry.omitted = 0
    · simp [SummaryEntry.tally, hopen, ih]
      omega
    · simp [SummaryEntry.tally, hopen, ih]
      omega

variable {entries : List SummaryEntry} {exchanges : List PriorExchange} {s : Folded}

theorem tally_of_real (h : ∀ entry ∈ entries, entry.omitted = 0) :
    (entries.map SummaryEntry.tally).sum = entries.length := by
  have hone : entries.map SummaryEntry.tally = entries.map fun _ => 1 :=
    map_congr_left fun entry hentry => by simp [SummaryEntry.tally, h entry hentry]
  rw [hone]
  simp

variable {stands : SummaryEntry → PriorExchange → Prop} {added : List SummaryEntry}

theorem Recounts.append {more : List PriorExchange} (h : Recounts stands entries exchanges)
    (hreal : ∀ entry ∈ added, entry.omitted = 0) (hadded : List.Forall₂ stands added more) :
    Recounts stands (entries ++ added) (exchanges ++ more) := by
  obtain ⟨kept, hsub, hhead, hlast, hstands⟩ := h.kept
  have hall : realEntries added = added :=
    filter_eq_self.mpr fun entry hentry => by simp [hreal entry hentry]
  refine ⟨?_, kept ++ more, hsub.append (List.Sublist.refl more), ?_, ?_, ?_⟩
  · rw [map_append, sum_append, h.counted, tally_of_real hreal, hadded.length_eq,
      length_append]
  · rw [head?_append, head?_append, hhead]
  · rw [getLast?_append, getLast?_append, hlast]
  · rw [realEntries_append, hall]
    exact rel_append hstands hadded

/-- **Leaving out the middle** counts what it leaves out, and keeps the ends. -/
theorem Recounts.keepEnds (h : Recounts stands entries exchanges) {keep : Nat} (hkeep : 2 ≤ keep) :
    Recounts stands (Chat.keepEnds entries keep) exchanges := by
  obtain ⟨kept, hsub, hhead, hlast, hstands⟩ := h.kept
  have hlength := hstands.length_eq
  unfold Chat.keepEnds
  dsimp only
  by_cases hfew : (realEntries entries).length ≤ keep
  · rw [if_pos hfew]
    exact h
  · rw [if_neg hfew, max_eq_right hkeep]
    -- the parts that are kept, in front and behind
    obtain ⟨first, hfirst⟩ : ∃ first, first = max 1 (keep / 3) := ⟨_, rfl⟩
    obtain ⟨back, hback⟩ : ∃ back, back = (realEntries entries).length - (keep - first) := ⟨_, rfl⟩
    rw [← hfirst, ← hback]
    have hle : first ≤ back := by omega
    have hlt : back < (realEntries entries).length := by omega
    have hpos : 0 < first := by omega
    have hsum := h.counted
    rw [sum_tally] at hsum
    have hreal : ∀ entry ∈ realEntries entries, entry.omitted = 0 := by
      intro entry hentry
      simpa using (mem_filter.mp hentry).2
    refine ⟨?_, kept.take first ++ kept.drop back, ?_, ?_, ?_, ?_⟩
    · have hfront := tally_of_real fun entry hentry =>
        hreal entry (mem_of_mem_take (i := first) hentry)
      have hrest := tally_of_real fun entry hentry =>
        hreal entry (mem_of_mem_drop (i := back) hentry)
      rw [map_append, sum_append, map_cons, sum_cons, hfront, hrest,
        length_take, length_drop, SummaryEntry.tally]
      dsimp only
      split <;> omega
    · refine List.Sublist.trans ?_ hsub
      have hdrop : (kept.drop back).Sublist (kept.drop first) := by
        rw [show back = first + (back - first) from by omega, ← drop_drop]
        exact drop_sublist _ _
      have hjoin := (List.Sublist.refl (kept.take first)).append hdrop
      rwa [take_append_drop] at hjoin
    · obtain ⟨x, xs, rfl⟩ := exists_cons_of_ne_nil
        (ne_nil_of_length_pos (by omega : 0 < kept.length))
      obtain ⟨k, rfl⟩ : ∃ k, first = k + 1 := ⟨first - 1, by omega⟩
      rw [← hhead]
      rfl
    · have hne : kept.drop back ≠ [] := by
        intro hnil
        have hshort := drop_eq_nil_iff.mp hnil
        omega
      rw [← hlast, getLast?_append_of_ne_nil _ hne, getLast?_drop, if_neg (by omega)]
    · have hmark : realEntries ((realEntries entries).take first ++
          ({ omitted := (entries.map SummaryEntry.omitted).sum +
            (realEntries entries).length - first -
            (keep - first) } : SummaryEntry) :: (realEntries entries).drop back) =
          (realEntries entries).take first ++ (realEntries entries).drop back := by
        have hfront : realEntries ((realEntries entries).take first) =
            (realEntries entries).take first :=
          filter_eq_self.mpr fun entry hentry => by
            simp [hreal entry (mem_of_mem_take hentry)]
        have hrest : realEntries ((realEntries entries).drop back) =
          (realEntries entries).drop back :=
          filter_eq_self.mpr fun entry hentry => by
            simp [hreal entry (mem_of_mem_drop hentry)]
        rw [realEntries_append, hfront, realEntries_marker (by dsimp only; omega), hrest]
      rw [hmark]
      exact rel_append (forall₂_take _ hstands) (forall₂_drop _ hstands)

theorem Recounts.reread {question : Nat} (hquestion : 9 ≤ question)
    {rendered read : List SummaryEntry} (hread : List.Forall₂ (ReadAs question) rendered read)
    (h : Recounts Carries rendered exchanges) :
    Recounts Shows read exchanges := by
  have htally : rendered.map SummaryEntry.tally = read.map SummaryEntry.tally := by
    refine forall₂_eq_eq_eq ▸ ?_
    rw [forall₂_map_left_iff, forall₂_map_right_iff]
    exact hread.imp fun a b hab => by rw [SummaryEntry.tally, SummaryEntry.tally, hab.omitted]
  have hreal : List.Forall₂ (fun a b => a.omitted = 0 ∧ ReadAs question a b) (realEntries rendered)
      (realEntries read) := by
    have hsame : ∀ {a b : List SummaryEntry}, List.Forall₂ (ReadAs question) a b →
        List.Forall₂ (fun a b => a.omitted = 0 ∧ ReadAs question a b) (realEntries a)
          (realEntries b) := by
      intro a b hab
      induction hab with
      | nil => exact .nil
      | @cons x y _ _ hxy _ ih =>
        by_cases hopen : x.omitted = 0
        · have hopen' : y.omitted = 0 := hxy.omitted.trans hopen
          unfold realEntries at ih ⊢
          rw [filter_cons_of_pos (by simp [hopen]), filter_cons_of_pos (by simp [hopen'])]
          exact .cons ⟨hopen, hxy⟩ ih
        · rw [realEntries_marker hopen, realEntries_marker (by rw [hxy.omitted]; exact hopen)]
          exact ih
    exact hsame hread
  have hstep : ∀ {a b : List SummaryEntry} {xs : List PriorExchange},
      List.Forall₂ (fun a b => a.omitted = 0 ∧ ReadAs question a b) a b →
      List.Forall₂ Carries a xs → List.Forall₂ Shows b xs := by
    intro a b xs hab
    induction hab generalizing xs with
    | nil =>
      intro hxs
      cases hxs
      exact .nil
    | cons hxy _ ih =>
      intro hxs
      cases hxs with
      | cons hcarries hrest =>
        refine .cons ?_ (ih hrest)
        unfold Shows
        rw [hxy.2.asked hxy.1]
        rcases hcarries with heq | hshows
        · rw [heq]
          exact tells_asked (by omega) _
        · exact Tells.asked hquestion hshows
  obtain ⟨kept, hsub, hhead, hlast, hstands⟩ := h.kept
  exact ⟨by rw [← htally, h.counted], kept, hsub, hhead, hlast, hstep hreal hstands⟩

def FiniteStep (step : Obj) : Prop :=
  Finite ((get? step "summary").getD .null) ∧
    ∀ m ∈ stepParams step, isGiven m.2 = true → Finite m.2

def Fits (head : Text) (entries : List SummaryEntry) (limit : Nat) : Prop :=
  (fullText head entries true).length ≤ limit ∨ (fullText head entries false).length ≤ limit ∨
    (shortenAnswers head entries limit (firstLength head entries limit)).isSome = true ∨
    (compactText head entries).length ≤ limit ∨
    (compactText head (endEntries head entries limit)).length ≤ limit

variable (digits : Digits)

/-- The condition on a fold: the numbers of its steps can be shown, a rendering fits, and where the
lookups are rendered no line of them reads as an entry or a marker. -/
structure Foldable (s : Folded) (fold : Fold) : Prop where
  finite : ∀ exchange ∈ fold.exchanges, ∀ step ∈ exchange.steps, toolOf step ≠ none →
    FiniteStep step
  fits : ∀ added, fold.exchanges.mapM entryOf = some added →
    Fits (summaryHead digits s.summary fold.limit)
      (summaryEntries digits s.summary ++ added) fold.limit
  unforged : ∀ added, fold.exchanges.mapM entryOf = some added →
    (fullText (summaryHead digits s.summary fold.limit) (summaryEntries digits s.summary ++ added)
      true).length ≤ fold.limit → ∀ entry ∈ added, Unforged digits entry.digest

theorem isSome_mapM {α β : Type} {f : α → Option β} {xs : List α}
    (h : ∀ x ∈ xs, (f x).isSome = true) : (xs.mapM f).isSome = true := by
  induction xs with
  | nil => simp
  | cons x xs ih =>
    obtain ⟨y, hy⟩ := Option.isSome_iff_exists.mp (h x mem_cons_self)
    obtain ⟨ys, hys⟩ := Option.isSome_iff_exists.mp (ih fun z hz => h z (mem_cons_of_mem _ hz))
    simp [mapM_cons, hy, hys]

theorem isSome_digestValue {value : Json} (h : Finite value) :
    (digestValue value).isSome = true := by
  have hshown : (displayText 60 value).isSome = true := displayText_isSome_iff.mpr h
  cases value with
  | bool b => rfl
  | _ => simpa only [digestValue] using hshown

variable {limit : Nat}

theorem isSome_lookupDigest {key : Text} {steps : List Obj}
    (h : ∀ step ∈ steps, toolOf step ≠ none → FiniteStep step) :
    (lookupDigest key steps limit).isSome = true := by
  unfold lookupDigest
  dsimp only
  rw [Option.isSome_map]
  refine isSome_mapM fun lookup hlookup => ?_
  obtain ⟨step, hstep, htool⟩ := mem_filterMap.mp hlookup
  obtain ⟨tool, hname, rfl⟩ := Option.map_eq_some_iff.mp htool
  obtain ⟨hsummary, hparams⟩ := h step hstep (by rw [hname]; simp)
  have hargs : (stepArgs step).isSome = true := by
    unfold stepArgs
    rw [Option.isSome_map]
    refine isSome_mapM fun m hm => ?_
    obtain ⟨hmem, hgiven⟩ := mem_filter.mp hm
    unfold digestParam
    rw [Option.isSome_map]
    exact isSome_digestValue (hparams m hmem hgiven)
  have houtcome : (stepOutcome step).isSome = true := by
    unfold stepOutcome
    dsimp only
    rw [Option.isSome_map]
    exact displayText_isSome_iff.mpr hsummary
  obtain ⟨args, hargs⟩ := Option.isSome_iff_exists.mp hargs
  obtain ⟨outcome, houtcome⟩ := Option.isSome_iff_exists.mp houtcome
  unfold digestPart
  simp [hargs, houtcome]

variable {fold : Fold}

theorem fold_returns
    (h : ∀ exchange ∈ fold.exchanges, ∀ step ∈ exchange.steps, toolOf step ≠ none →
      FiniteStep step) :
    ∃ t, (folding digits).step s fold = some t := by
  have hadded : (fold.exchanges.mapM entryOf).isSome = true := by
    refine isSome_mapM fun exchange hexchange => ?_
    unfold entryOf
    rw [Option.isSome_map]
    exact isSome_lookupDigest (h exchange hexchange)
  obtain ⟨added, hadded⟩ := Option.isSome_iff_exists.mp hadded
  refine Option.isSome_iff_exists.mp ?_
  simp only [folding, extractiveSummary, hadded, Option.map_some, Option.isSome_some]

variable {text : Text}

theorem length_cleanSummary_le (h : summaryOmitted.length ≤ limit) :
    (cleanSummary text limit).length ≤ limit := by
  unfold cleanSummary
  dsimp only
  split
  · assumption
  · rename_i hlong
    obtain ⟨room, hroom⟩ : ∃ room, room = limit - summaryOmitted.length := ⟨_, rfl⟩
    rw [← hroom]
    obtain ⟨head, hhead⟩ : ∃ head, head = (sanitiseSummary text).take (room * 2 / 5) := ⟨_, rfl⟩
    rw [← hhead]
    have hheadLength : head.length ≤ room := by
      rw [hhead, length_take]
      omega
    obtain ⟨tail, htail⟩ : ∃ tail, tail =
      (sanitiseSummary text).drop ((sanitiseSummary text).length - (room - head.length)) := ⟨_, rfl⟩
    rw [← htail]
    have htailLength : tail.length ≤ room - head.length := by
      rw [htail, length_drop]
      omega
    have hfront : ∀ front : Text, front.length ≤ head.length → ∀ back : Text,
        back.length ≤ tail.length →
        (rstrip front ++ summaryOmitted ++ back.dropWhile isSpace).length ≤ limit := by
      intro front hfront back hback
      have hstrip := (rstrip_isPrefix front).length_le
      have hdrop := (dropWhile_sublist (l := back) isSpace).length_le
      simp only [length_append]
      omega
    refine hfront _ ?_ _ ?_
    · split
      · split
        · exact (List.take_prefix _ _).length_le
        · exact Nat.le_refl _
      · exact Nat.le_refl _
    · split
      · split
        · exact (drop_sublist _ _).length_le
        · exact Nat.le_refl _
      · exact Nat.le_refl _

variable {head : Text}

theorem shortenAnswers_eq_some {each : Nat}
    (h : shortenAnswers head entries limit each = some text) :
    ∃ answer, text = renderEntries head entries 120 answer false ∧ text.length ≤ limit := by
  induction each using Nat.strongRecOn with
  | ind each ih =>
    rw [shortenAnswers] at h
    by_cases hlong : 80 ≤ each
    · rw [dif_pos hlong] at h
      dsimp only at h
      by_cases hfits : (renderEntries head entries 120 each false).length ≤ limit
      · rw [if_pos hfits] at h
        cases h
        exact ⟨each, rfl, hfits⟩
      · rw [if_neg hfits] at h
        exact ih (each * 9 / 10) (by omega) h
    · rw [dif_neg hlong] at h
      cases h

theorem extractiveText_of_fits (h : Fits head entries limit) : ∃ rendered question answer digest,
      extractiveText head entries limit = renderEntries head rendered question answer digest ∧
      (extractiveText head entries limit).length ≤ limit ∧ 9 ≤ question ∧
      (rendered = entries ∨ ∃ keep, 2 ≤ keep ∧ rendered = keepEnds entries keep) ∧
      (digest = true → rendered = entries ∧ (fullText head entries true).length ≤ limit) := by
  by_cases hfull : (fullText head entries true).length ≤ limit
  · have htext : extractiveText head entries limit = fullText head entries true := by
      rw [extractiveText, if_pos hfull]
    rw [htext]
    exact ⟨entries, 300, 600, true, rfl, hfull, by decide, .inl rfl, fun _ => ⟨rfl, hfull⟩⟩
  by_cases hbare : (fullText head entries false).length ≤ limit
  · have htext : extractiveText head entries limit = fullText head entries false := by
      rw [extractiveText, if_neg hfull, if_pos hbare]
    rw [htext]
    exact ⟨entries, 300, 600, false, rfl, hbare, by decide, .inl rfl, nofun⟩
  cases hshort : shortenAnswers head entries limit (firstLength head entries limit) with
  | some text =>
    obtain ⟨answer, heq, hfits⟩ := shortenAnswers_eq_some hshort
    have htext : extractiveText head entries limit = text := by
      rw [extractiveText, if_neg hfull, if_neg hbare, hshort]
    rw [htext]
    exact ⟨entries, 120, answer, false, heq, hfits, by decide, .inl rfl, nofun⟩
  | none =>
    have htext : extractiveText head entries limit =
        if limit < (compactText head entries).length then
          compactText head (endEntries head entries limit) else compactText head entries := by
      rw [extractiveText, if_neg hfull, if_neg hbare, hshort]
    rw [htext]
    by_cases hcompact : limit < (compactText head entries).length
    · rw [if_pos hcompact]
      have hends : (compactText head (endEntries head entries limit)).length ≤ limit := by
        rcases h with h | h | h | h | h
        · exact absurd h hfull
        · exact absurd h hbare
        · rw [hshort] at h
          cases h
        · omega
        · exact h
      exact ⟨_, 120, 80, false, rfl, hends, by decide, .inr ⟨_, le_max_left 2 _, rfl⟩, nofun⟩
    · rw [if_neg hcompact]
      exact ⟨entries, 120, 80, false, rfl, by omega, by decide, .inl rfl, nofun⟩

/-! ### Runs -/

def Accounts (summary : Text) (exchanges : List PriorExchange) : Prop :=
  Recounts Shows (summaryEntries digits summary) exchanges

structure Sound (s : Folded) : Prop where
  head : (parseExtractive digits (sanitiseSummary s.summary)).1 = []
  settled : ∀ entry ∈ summaryEntries digits s.summary, entry.omitted = 0 → Settled entry.digest
  accounts : Accounts digits s.summary s.exchanges
  bounded : s.summary.length ≤ s.limit

theorem sound_start (h : (folding digits).start s) : Sound digits s := by
  obtain ⟨summary, exchanges, limit⟩ := s
  obtain ⟨hsummary, hexchanges⟩ := h
  dsimp only at hsummary hexchanges
  subst hsummary hexchanges
  have hread : parseExtractive digits (sanitiseSummary []) = ([], []) := rfl
  refine ⟨by rw [hread], ?_, ?_, Nat.zero_le limit⟩
  · unfold summaryEntries
    rw [hread]
    exact fun entry hentry => (by cases hentry)
  · unfold Accounts summaryEntries
    rw [hread]
    exact ⟨rfl, [], .slnil, rfl, rfl, .nil⟩

theorem added_carries (h : exchanges.mapM entryOf = some added) :
    List.Forall₂ (fun entry exchange => entryOf exchange = some entry) added exchanges := by
  induction exchanges generalizing added with
  | nil =>
    rw [mapM_nil] at h
    cases h
    exact .nil
  | cons exchange exchanges ih =>
    rw [mapM_cons] at h
    obtain ⟨entry, hentry, h⟩ := Option.bind_eq_some_iff.mp h
    obtain ⟨rest, hrest, h⟩ := Option.bind_eq_some_iff.mp h
    cases h
    exact .cons hentry (ih hrest)

theorem exists_of_forall₂ {α β : Type} {R : α → β → Prop} {a : List α} {b : List β}
    (h : List.Forall₂ R a b) {x : α} (hx : x ∈ a) : ∃ y, R x y := by
  induction h with
  | nil => cases hx
  | cons hxy _ ih =>
    rcases mem_cons.mp hx with rfl | hx
    · exact ⟨_, hxy⟩
    · exact ih hx

theorem entryOf_eq_some {exchange : PriorExchange} (h : entryOf exchange = some entry) :
    entry.omitted = 0 ∧ Carries entry exchange ∧
      Headed entry.digest := by
  unfold entryOf at h
  obtain ⟨digest, hdigest, rfl⟩ := Option.map_eq_some_iff.mp h
  exact ⟨rfl, .inl rfl, headed_of_head (lookupDigest_head (by decide) hdigest)⟩

theorem le_summaryMaxChars : summaryOmitted.length ≤ summaryMaxChars := by
  decide

variable {t : Folded}

/-- **One fold** keeps the account. -/
theorem Sound.step (hs : Sound digits s) (hfold : Foldable digits s fold)
    (hstep : (folding digits).step s fold = some t) : Sound digits t := by
  obtain ⟨summary, hsummary, rfl⟩ := Option.map_eq_some_iff.mp hstep
  obtain ⟨added, hadded, rfl⟩ := Option.map_eq_some_iff.mp hsummary
  have hhead : summaryHead digits s.summary fold.limit = [] := by
    unfold summaryHead
    rw [hs.head, if_neg (by simp)]
  have hfits := hfold.fits added hadded
  have hunforged := hfold.unforged added hadded
  rw [hhead] at hfits hunforged ⊢
  obtain ⟨rendered, question, answer, digest, htext, hlength, hquestion, hrendered, hdigest⟩ :=
    extractiveText_of_fits hfits
  -- the entries of the new exchanges, and of all
  have hentries : ∀ entry ∈ added, entry.omitted = 0 ∧ Headed entry.digest := by
    intro entry hentry
    obtain ⟨exchange, hof⟩ := exists_of_forall₂ (added_carries hadded) hentry
    obtain ⟨hreal, -, hheaded⟩ := entryOf_eq_some hof
    exact ⟨hreal, hheaded⟩
  have hall : Recounts Carries (summaryEntries digits s.summary ++ added)
      (s.exchanges ++ fold.exchanges) := by
    obtain ⟨kept, hsub, hfirst, hlast, hstands⟩ := hs.accounts.kept
    have hbefore : Recounts Carries (summaryEntries digits s.summary) s.exchanges :=
      ⟨hs.accounts.counted, kept, hsub, hfirst, hlast, hstands.imp fun _ _ h => .inr h⟩
    exact hbefore.append (fun entry hentry => (hentries entry hentry).1)
      ((added_carries hadded).imp fun _ _ h => (entryOf_eq_some h).2.1)
  have hrecounts : Recounts Carries rendered (s.exchanges ++ fold.exchanges) := by
    rcases hrendered with rfl | ⟨keep, hkeep, rfl⟩
    · exact hall
    · exact hall.keepEnds hkeep
  have hshown : digest = true → ∀ entry ∈ rendered, entry.omitted = 0 →
      Unforged digits entry.digest ∧ Headed entry.digest := by
    intro hshow entry hentry hopen
    obtain ⟨rfl, hfull⟩ := hdigest hshow
    rcases mem_append.mp hentry with hentry | hentry
    · exact (hs.settled entry hentry hopen).lines digits
    · exact ⟨hunforged hfull entry hentry, (hentries entry hentry).2⟩
  have hasked : 2 ≤ question := by omega
  obtain ⟨read, hparse, hread⟩ := parseExtractive_render digits hasked answer hshown
  have hclean : cleanSummary (extractiveText []
    (summaryEntries digits s.summary ++ added) fold.limit)
      fold.limit = sanitiseSummary (renderEntries [] rendered question answer digest) := by
    have hshort := length_sanitiseSummary_le
      (extractiveText [] (summaryEntries digits s.summary ++ added) fold.limit)
    unfold cleanSummary
    dsimp only
    rw [if_pos (by omega), htext]
  have hback : parseExtractive digits (sanitiseSummary (cleanSummary
      (extractiveText [] (summaryEntries digits s.summary ++ added) fold.limit) fold.limit)) =
      ([], read) := by
    rw [hclean, sanitiseSummary_sanitiseSummary, hparse]
  refine ⟨by rw [hback], ?_, ?_, ?_⟩
  · unfold summaryEntries at hback ⊢
    rw [hback]
    intro entry hentry hopen
    obtain ⟨before, hreadAs⟩ := exists_of_forall₂ hread.flip hentry
    exact hreadAs.settled (hreadAs.omitted ▸ hopen)
  · unfold Accounts summaryEntries at hback ⊢
    rw [hback]
    exact hrecounts.reread hquestion hread
  · dsimp only
    refine length_cleanSummary_le ?_
    exact Nat.le_trans le_summaryMaxChars fold.bounded

theorem sound_of_reaches (h : (folding digits).Reaches (Foldable digits) s) :
    Sound digits s :=
  Machine.invariant (I := Sound digits) (fun _ => sound_start digits)
    (fun _ _ _ hs hfold hstep => hs.step digits hfold hstep) h

/-- **Every folded exchange is accounted for**: over the folds that meet the condition the summary
keeps its bound, its entries and its markers count the folded exchanges, and the entries stand for
some of these in order, the oldest and the newest among them.  Every such fold returns. -/
theorem folded_exchanges_accounted {s : Folded}
    (h : (folding digits).Reaches (Foldable digits) s) :
    s.summary.length ≤ s.limit ∧ Accounts digits s.summary s.exchanges ∧
      ∀ fold, Foldable digits s fold → ∃ t, (folding digits).step s fold = some t := by
  have hs := sound_of_reaches digits h
  exact ⟨hs.bounded, hs.accounts, fun fold hfold => fold_returns digits hfold.finite⟩

/-! ### Two folds -/

def emptySummary : Folded := ⟨[], [], 0⟩

theorem start_emptySummary : (folding digits).start emptySummary := ⟨rfl, rfl⟩

theorem exchanges_step (h : (folding digits).step s fold = some t) :
    t.exchanges = s.exchanges ++ fold.exchanges := by
  simp only [folding] at h
  obtain ⟨summary, -, rfl⟩ := Option.map_eq_some_iff.mp h
  rfl

def sampleExchange : PriorExchange := { user := ['h', 'i'], answer := ['o', 'k'] }

def sampleFold : Fold := ⟨[sampleExchange], summaryMaxChars, Nat.le_refl _⟩

def onceFolded : Folded :=
  ⟨"- Asked: hi\n  Answered: ok".toList, [sampleExchange], summaryMaxChars⟩

theorem step_emptySummary :
    (folding Receivers.asciiDigits).step emptySummary sampleFold = some onceFolded := rfl

theorem foldable_sample {s : Folded} (hfits : (fullText
      (summaryHead Receivers.asciiDigits s.summary summaryMaxChars)
      (summaryEntries Receivers.asciiDigits s.summary ++
        [{ question := ['h', 'i'], answer := ['o', 'k'] }]) true).length ≤ summaryMaxChars) :
    Foldable Receivers.asciiDigits s sampleFold := by
  have hadded : sampleFold.exchanges.mapM entryOf =
      some [{ question := ['h', 'i'], answer := ['o', 'k'] }] := rfl
  refine ⟨?_, ?_, ?_⟩
  · intro exchange hexchange step hstep
    obtain rfl := mem_singleton.mp hexchange
    cases hstep
  · intro added h
    obtain rfl := Option.some.inj (hadded.symm.trans h)
    exact .inl hfits
  · intro added h _ entry hentry line hline
    obtain rfl := Option.some.inj (hadded.symm.trans h)
    obtain rfl := mem_singleton.mp hentry
    have hnone : cleanLines [' ', ' '] = [] := by decide
    rw [hnone] at hline
    cases hline

theorem folded_exchanges_accounted_twice :
    ∃ s, (folding Receivers.asciiDigits).Reaches (Foldable Receivers.asciiDigits) s ∧
      s.exchanges = [sampleExchange, sampleExchange] ∧ s.summary.length ≤ s.limit ∧
      Accounts Receivers.asciiDigits s.summary s.exchanges := by
  have honce : (folding Receivers.asciiDigits).Reaches
    (Foldable Receivers.asciiDigits) onceFolded :=
    (Machine.Reaches.start (start_emptySummary _)).step (foldable_sample (by decide))
      step_emptySummary
  have htwice : Foldable Receivers.asciiDigits onceFolded sampleFold := foldable_sample (by decide)
  obtain ⟨t, ht⟩ := fold_returns Receivers.asciiDigits htwice.finite
  have hreaches := honce.step htwice ht
  obtain ⟨hbounded, haccounts, -⟩ := folded_exchanges_accounted Receivers.asciiDigits hreaches
  exact ⟨t, hreaches, exchanges_step _ ht, hbounded, haccounts⟩

def forgedExchange : PriorExchange :=
  { sampleExchange with steps := [[("tool", .str "x\n- Asked: y")]] }

/-- The second line is read as an entry. -/
theorem forged_entry_counted :
    ∃ s, (folding Receivers.asciiDigits).Reaches Machine.anyStep s ∧
      ¬ Accounts Receivers.asciiDigits s.summary s.exchanges := by
  have hrun : ((folding Receivers.asciiDigits).run emptySummary
      [⟨[forgedExchange], summaryMaxChars, Nat.le_refl _⟩]).any (fun s =>
        ((summaryEntries Receivers.asciiDigits s.summary).map SummaryEntry.tally).sum == 2 &&
          s.exchanges.length == 1) = true := by decide
  obtain ⟨s, -, hs, hcount⟩ := Machine.reaches_of_run _ _ emptySummary _ (start_emptySummary _) hrun
  rw [Bool.and_eq_true, beq_iff_eq, beq_iff_eq] at hcount
  refine ⟨s, hs, fun haccounts => ?_⟩
  have hcounted := haccounts.counted
  omega

end AgenticKibana.Chat
