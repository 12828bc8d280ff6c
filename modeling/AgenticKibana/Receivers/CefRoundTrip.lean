import AgenticKibana.Receivers.CefLines

/-!
# Writing an event and reading it

What is read of a field is what unescaping makes of its escaped text, and the record keeps
it: the keys are distinct, and an alias never takes the place of a key.  A header field with
a line boundary that is not escaped cuts the line in two.
-/

namespace AgenticKibana.Receivers

open AgenticKibana.Library List
open AgenticKibana.Library.TextLines

/-! ### Records -/

section Records

variable {record : Record} {key : Text} {aliasName : Text → Option Text} {pair : Text × Text}
  {value : Text}

theorem get?_addAliased_of_ne (hne : pair.1 ≠ key) (h : record.get? key = some value) :
    (addAliased aliasName record pair).get? key = some value := by
  have hset : (record.set pair.1 pair.2).get? key = some value := by
    rw [Dict.get?_set_of_ne _ _ hne.symm]
    exact h
  unfold addAliased
  dsimp only
  split
  · rw [Dict.get?_setDefault]
    split
    · rename_i hname
      rw [← hname, hset]
      rfl
    · exact hset
  · exact hset

theorem get?_addAliased_self (aliasName : Text → Option Text) (record : Record)
    (pair : Text × Text) : (addAliased aliasName record pair).get? pair.1 = some pair.2 := by
  have hset := Dict.get?_set_self record pair.1 pair.2
  unfold addAliased
  dsimp only
  split
  · rw [Dict.get?_setDefault]
    split
    · rename_i hname
      rw [← hname, hset]
      rfl
    · exact hset
  · exact hset

variable {pairs : List (Text × Text)}

theorem get?_foldl_addAliased_of_ne (hne : ∀ pair ∈ pairs, pair.1 ≠ key)
    (h : record.get? key = some value) :
    (pairs.foldl (addAliased aliasName) record).get? key = some value := by
  induction pairs generalizing record with
  | nil => exact h
  | cons pair pairs ih =>
    exact ih (fun p hp => hne p (mem_cons_of_mem _ hp))
      (get?_addAliased_of_ne (hne pair mem_cons_self) h)

/-- **Each pair is in the record** where the keys are distinct. -/
theorem get?_foldl_addAliased_of_mem {aliasName : Text → Option Text} {pairs : List (Text × Text)}
    (hnodup : (pairs.map Prod.fst).Nodup) {pair : Text × Text} (hmem : pair ∈ pairs) :
    (pairs.foldl (addAliased aliasName) record).get? pair.1 = some pair.2 := by
  induction pairs generalizing record with
  | nil => cases hmem
  | cons p pairs ih =>
    rw [map_cons] at hnodup
    obtain ⟨hnot, hrest⟩ := nodup_cons.mp hnodup
    rw [foldl_cons]
    rcases mem_cons.mp hmem with rfl | htail
    · refine get?_foldl_addAliased_of_ne ?_ (get?_addAliased_self aliasName record pair)
      intro q hq heq
      exact hnot (heq ▸ mem_map_of_mem hq)
    · exact ih hrest htail

theorem foldl_addPair (pairs : List (Text × Text)) (record : Record) :
    pairs.foldl addPair record =
      (pairs.map fun pair => (pair.1, unescapeCef (strip pair.2))).foldl (addAliased aliasOf)
        record := by
  rw [foldl_map]
  rfl

theorem get?_foldl_of_ne (hne : ∀ pair ∈ pairs, pair.1 ≠ key) (h : record.get? key = some value) :
    (pairs.foldl addPair record).get? key = some value := by
  rw [foldl_addPair]
  apply get?_foldl_addAliased_of_ne ?_ h
  intro pair hpair
  obtain ⟨p, hp, rfl⟩ := mem_map.mp hpair
  exact hne p hp

theorem get?_foldl_of_mem (hnodup : (pairs.map Prod.fst).Nodup) (hmem : pair ∈ pairs) :
    (pairs.foldl addPair record).get? pair.1 = some (unescapeCef (strip pair.2)) := by
  rw [foldl_addPair]
  refine @get?_foldl_addAliased_of_mem record _ _ ?_ (pair.1, unescapeCef (strip pair.2))
    (mem_map.mpr ⟨pair, hmem, rfl⟩)
  rw [map_map]
  exact hnodup

end Records

/-- `[A-Za-z][\w.\[\]]*` keys that differ from each other and from those of the header, and values
that neither begin nor end with white space and have no line boundary but those that are escaped. -/
structure CefEvent.Valid (word : WordClass) (e : CefEvent) : Prop where
  shaped : ∀ pair ∈ e.extension, KeyShaped word pair.1
  distinct : (e.extension.map Prod.fst).Nodup
  apart : ∀ pair ∈ e.extension, pair.1 ∉ headerKeys.map String.toList
  trimmed : ∀ pair ∈ e.extension, Trimmed pair.2
  unbroken : ∀ pair ∈ e.extension, ∀ c ∈ pair.2, isBreak c = true → c = '\n' ∨ c = '\r'

def CefEvent.OneLine (e : CefEvent) : Prop :=
  ∀ field ∈ e.header, ∀ c ∈ field, isBreak c = true → c = '\n' ∨ c = '\r'

variable {text : Text}

theorem escape_unbroken {special : Char} (hspecial : isBreak special = false)
    (h : ∀ c ∈ text, isBreak c = true → c = '\n' ∨ c = '\r') :
    ∀ c ∈ escape special text, isBreak c = false := by
  intro c hc
  obtain ⟨x, hx, hcx⟩ := mem_flatMap.mp hc
  rcases escapeChar_cases special x with ⟨y, hy, hletter⟩ | ⟨hy, -, -, hlf, hcr⟩
  · rw [hy] at hcx
    rcases mem_cons.mp hcx with rfl | hmem
    · decide
    · rw [mem_singleton.mp hmem]
      rcases hletter with rfl | rfl | rfl | rfl
      · decide
      · exact hspecial
      · decide
      · decide
  · rw [hy] at hcx
    rw [mem_singleton.mp hcx]
    by_contra hbreak
    rw [Bool.not_eq_false] at hbreak
    rcases h x hx hbreak with heq | heq
    · exact hlf heq
    · exact hcr heq

variable {word : WordClass} {c : Char}

theorem keyChar_unbroken (h : isKeyChar word c = true) : isBreak c = false := by
  by_contra hbreak
  rw [Bool.not_eq_false] at hbreak
  unfold isKeyChar at h
  rw [word.space c (isSpace_of_isBreak hbreak)] at h
  have hother : c ≠ '.' ∧ c ≠ '[' ∧ c ≠ ']' := by
    refine ⟨?_, ?_, ?_⟩
    all_goals
      rintro rfl
      exact absurd hbreak (by decide)
  rw [beq_eq_false_iff_ne.mpr hother.1, beq_eq_false_iff_ne.mpr hother.2.1,
    beq_eq_false_iff_ne.mpr hother.2.2] at h
  cases h

theorem keyShaped_unbroken {key : Text} (h : KeyShaped word key) :
    ∀ c ∈ key, isBreak c = false := by
  obtain ⟨c, cs, rfl, hc, hcs⟩ := h
  intro x hx
  rcases mem_cons.mp hx with rfl | hmem
  · exact keyChar_unbroken (isKeyStart_isKeyChar word hc)
  · exact keyChar_unbroken (hcs x hmem)

/-! ### One line -/

theorem foldl_splitFeed_unbroken (h : ∀ c ∈ text, isBreak c = false) (current : Text) :
    text.foldl Splitter.feed ⟨[], current, false⟩ = ⟨[], current ++ text, false⟩ := by
  induction text generalizing current with
  | nil => rw [append_nil]; rfl
  | cons c text ih =>
    have hfeed : Splitter.feed ⟨[], current, false⟩ c = ⟨[], current ++ [c], false⟩ := by
      unfold Splitter.feed
      dsimp only
      rw [if_neg fun hcr => Bool.false_ne_true hcr.1, h c mem_cons_self,
        if_neg Bool.false_ne_true]
    rw [foldl_cons, hfeed, ih fun x hx => h x (mem_cons_of_mem _ hx),
      append_assoc]
    rfl

theorem splitLines_unbroken (hne : text ≠ []) (h : ∀ c ∈ text, isBreak c = false) :
    splitLines text = [text] := by
  have hsplit : splitter text = ⟨[], text, false⟩ := foldl_splitFeed_unbroken h []
  unfold splitLines
  rw [hsplit]
  exact if_neg hne

theorem mem_foldl_splitFeed (hc : isBreak c = false) (text : Text) (s : Splitter)
    (h : c ∈ text ∨ ∃ line ∈ s.done ++ [s.current], c ∈ line) :
    ∃ line ∈ (text.foldl Splitter.feed s).done ++ [(text.foldl Splitter.feed s).current],
      c ∈ line := by
  induction text generalizing s with
  | nil =>
    rcases h with h | h
    · cases h
    · exact h
  | cons x text ih =>
    apply ih
    have hkeep : ∀ line ∈ s.done ++ [s.current], c ∈ line →
        ∃ line ∈ (s.feed x).done ++ [(s.feed x).current], c ∈ line := by
      intro line hline hmem
      unfold Splitter.feed
      split
      · exact ⟨line, hline, hmem⟩
      split
      · exact ⟨line, mem_append_left _ hline, hmem⟩
      · rcases mem_append.mp hline with hdone | hcurrent
        · exact ⟨line, mem_append_left _ hdone, hmem⟩
        · rw [mem_singleton.mp hcurrent] at hmem
          exact ⟨_, mem_append_right _ mem_cons_self, mem_append_left _ hmem⟩
    rcases h with h | ⟨line, hline, hmem⟩
    · rcases mem_cons.mp h with rfl | htail
      · right
        have hcr : ¬ c = '\n' := by
          intro heq
          rw [heq] at hc
          exact absurd hc (by decide)
        unfold Splitter.feed
        rw [if_neg fun h => hcr h.2, hc, if_neg Bool.false_ne_true]
        exact ⟨_, mem_append_right _ mem_cons_self,
          mem_append_right _ mem_cons_self⟩
      · exact .inl htail
    · exact .inr (hkeep line hline hmem)

theorem splitLines_cut {before after : Text} {brk : Char}
    (hbefore : ∀ x ∈ before, isBreak x = false) (hbrk : isBreak brk = true)
    (hc : isBreak c = false) (hmem : c ∈ after) :
    ∃ lines, splitLines (before ++ brk :: after) = before :: lines ∧ ∃ line ∈ lines, c ∈ line := by
  have hfeed : Splitter.feed ⟨[], before, false⟩ brk = ⟨[before] ++ [], [], brk = '\r'⟩ := by
    unfold Splitter.feed
    dsimp only
    rw [if_neg fun hcr => Bool.false_ne_true hcr.1, if_pos hbrk]
    rfl
  have hsplit : splitter (before ++ brk :: after) =
      after.foldl Splitter.feed ⟨[before] ++ [], [], brk = '\r'⟩ := by
    have hfirst := foldl_splitFeed_unbroken hbefore []
    rw [nil_append] at hfirst
    unfold splitter
    rw [foldl_append, foldl_cons, show ({} : Splitter) = ⟨[], [], false⟩ from rfl,
      hfirst, hfeed]
  have happend := foldl_splitFeed_append [before] ⟨[], [], brk = '\r'⟩ after
  obtain ⟨line, hline, hin⟩ := mem_foldl_splitFeed hc after ⟨[], [], brk = '\r'⟩ (.inl hmem)
  unfold splitLines
  rw [hsplit, happend]
  dsimp only
  generalize after.foldl Splitter.feed ⟨[], [], brk = '\r'⟩ = s at hline
  by_cases hcurrent : s.current = []
  · rw [if_pos hcurrent]
    refine ⟨s.done, rfl, ?_⟩
    rcases mem_append.mp hline with hdone | hlast
    · exact ⟨line, hdone, hin⟩
    · rw [mem_singleton.mp hlast, hcurrent] at hin
      cases hin
  · rw [if_neg hcurrent]
    exact ⟨s.done ++ [s.current], rfl, line, hline, hin⟩

theorem mem_strip (hc : isSpace c = false) (h : c ∈ text) : c ∈ strip text := by
  have hdrop : ∀ text : Text, c ∈ text → c ∈ text.dropWhile isSpace := by
    intro text hmem
    rw [← takeWhile_append_dropWhile (p := isSpace) (l := text)] at hmem
    rcases mem_append.mp hmem with htake | hrest
    · rw [mem_takeWhile_imp htake] at hc
      cases hc
    · exact hrest
  unfold strip
  exact mem_reverse.mpr (hdrop _ (mem_reverse.mpr (hdrop _ h)))

theorem exists_first_break {pre post : Text} {brk : Char} (hbrk : isBreak brk = true) :
    ∃ before brk' after, pre ++ brk :: post = before ++ brk' :: after ∧ before <+: pre ∧
      (∀ x ∈ before, isBreak x = false) ∧ isBreak brk' = true ∧ post <:+ after := by
  by_cases hpre : ∀ x ∈ pre, isBreak x = false
  · exact ⟨pre, brk, post, rfl, prefix_refl _, hpre, hbrk, suffix_refl _⟩
  · have hrest : pre.dropWhile (fun x => !isBreak x) ≠ [] := by
      intro hnil
      apply hpre
      intro x hx
      have hkeep := dropWhile_eq_nil_iff.mp hnil x hx
      rw [Bool.not_eq_true'] at hkeep
      exact hkeep
    obtain ⟨x, xs, hx⟩ := exists_cons_of_ne_nil hrest
    have hsplit := takeWhile_append_dropWhile (p := fun x => !isBreak x) (l := pre)
    refine ⟨pre.takeWhile fun x => !isBreak x, x, xs ++ brk :: post, ?_, List.takeWhile_prefix _,
      ?_, ?_, ?_⟩
    · conv_lhs => rw [← hsplit, hx]
      simp only [append_assoc, cons_append]
    · intro y hy
      have hkeep := mem_takeWhile_imp hy
      rw [Bool.not_eq_true'] at hkeep
      exact hkeep
    · have hhead := head_dropWhile_not (fun x => !isBreak x) hrest
      simp only [hx, head_cons, Bool.not_eq_false'] at hhead
      exact hhead
    · exact ⟨xs ++ [brk], by simp⟩

def nonblankLines (text : Text) : List Text := ((splitLines text).map strip).filter (· ≠ [])

/-- **A text that is cut**, with more than white space before and behind, has two lines at
least. -/
theorem two_lines_of_break {post : Text} {brk c' : Char} {pre : Text}
    (htext : text = c :: pre ++ brk :: post) (hc : isSpace c = false) (hbrk : isBreak brk = true)
    (hc' : isSpace c' = false) (hpost : c' ∈ post) :
    ∃ line line' lines, nonblankLines text = line :: lines ∧ line' ∈ lines := by
  have hbreak : ∀ x : Char, isSpace x = false → isBreak x = false := by
    intro x hx
    by_contra hbrk
    rw [Bool.not_eq_false] at hbrk
    rw [isSpace_of_isBreak hbrk] at hx
    cases hx
  obtain ⟨before, brk', after, hcut, hprefix, hbefore, hbrk', hafter⟩ :=
    @exists_first_break (c :: pre) post brk hbrk
  have hfirst : c ∈ before := by
    cases before with
    | nil =>
      have hcb : c = brk' := (cons_eq_cons.mp hcut).1
      rw [hcb] at hc
      rw [hbreak brk' hc] at hbrk'
      cases hbrk'
    | cons y before =>
      have hcy : c = y := (cons_eq_cons.mp hcut).1
      rw [← hcy]
      exact mem_cons_self
  obtain ⟨lines, hlines, line, hmem, hin⟩ :=
    splitLines_cut hbefore hbrk' (hbreak c' hc') (hafter.subset hpost)
  refine ⟨strip before, strip line, (lines.map strip).filter (· ≠ []), ?_, ?_⟩
  · have hone : strip before ≠ [] := ne_nil_of_mem (mem_strip hc hfirst)
    rw [nonblankLines, htext, hcut, hlines, map_cons, filter_cons,
      if_pos (decide_eq_true hone)]
  · refine mem_filter.mpr ⟨mem_map_of_mem hmem, ?_⟩
    exact decide_eq_true (ne_nil_of_mem (mem_strip hc' hin))

/-- **A header field that is cut** makes more than one record of the event. -/
theorem parseCef_of_broken {e : CefEvent} (h : ¬ e.OneLine) (record : Record) :
    parseCef word (.text e.encode) ≠ [record] := by
  unfold CefEvent.OneLine at h
  push Not at h
  obtain ⟨field, hfield, brk, hmem, hbrk, hlf, hcr⟩ := h
  -- the boundary stands in the line, and a bar after it
  have hraw : brk ∈ escape '|' field := by
    refine mem_flatMap.mpr ⟨brk, hmem, ?_⟩
    rcases escapeChar_cases '|' brk with ⟨x, hx, -⟩ | ⟨hx, -⟩
    · unfold escapeChar at hx ⊢
      have hslash : brk ≠ '\\' := by rintro rfl; exact absurd hbrk (by decide)
      have hbar : brk ≠ '|' := by rintro rfl; exact absurd hbrk (by decide)
      rw [if_neg hslash, if_neg hbar, if_neg hlf, if_neg hcr]
      exact mem_cons_self
    · rw [hx]
      exact mem_cons_self
  obtain ⟨a, b, hab⟩ := append_of_mem hraw
  obtain ⟨front, back, hheader⟩ := append_of_mem hfield
  obtain ⟨pre, post, hline, hpost⟩ :
      ∃ pre post, e.encode = 'C' :: pre ++ brk :: post ∧ '|' ∈ post := by
    refine ⟨['E', 'F', ':'] ++ (front.flatMap fun field => escape '|' field ++ ['|']) ++ a,
      b ++ '|' :: ((back.flatMap fun field => escape '|' field ++ ['|']) ++
        List.intercalate [' '] (e.extension.map encodePair)), ?_, ?_⟩
    · unfold CefEvent.encode cefMarker
      rw [hheader, flatMap_append, flatMap_cons, hab]
      simp only [append_assoc, cons_append, nil_append]
    · exact mem_append_right _ mem_cons_self
  obtain ⟨line, line', lines, hlines, hsecond⟩ :=
    two_lines_of_break hline (by decide) hbrk (show isSpace '|' = false by decide) hpost
  unfold nonblankLines at hlines
  unfold parseCef Payload.toText
  dsimp only
  rw [hlines, map_cons, if_neg (cons_ne_nil _ _)]
  intro heq
  have hnone := (cons_eq_cons.mp heq).2
  rw [map_eq_nil_iff] at hnone
  rw [hnone] at hsecond
  cases hsecond

/-! ### What is read -/

theorem mem_extension {pairs : List (Text × Text)}
    (h : c ∈ List.intercalate [' '] (pairs.map encodePair)) :
    c = ' ' ∨ ∃ pair ∈ pairs, c ∈ encodePair pair := by
  induction pairs with
  | nil => cases h
  | cons pair pairs ih =>
    cases pairs with
    | nil =>
      rw [map_singleton, intercalate_singleton] at h
      exact .inr ⟨pair, mem_cons_self, h⟩
    | cons next pairs =>
      rw [map_cons, map_cons, intercalate_cons_cons] at h
      rcases mem_append.mp h with h | h
      · rcases mem_append.mp h with h | h
        · exact .inr ⟨pair, mem_cons_self, h⟩
        · exact .inl (mem_singleton.mp h)
      · rcases ih h with h | ⟨p, hp, h⟩
        · exact .inl h
        · exact .inr ⟨p, mem_cons_of_mem _ hp, h⟩

section Reading

variable {word : WordClass} {e : CefEvent}

theorem encode_unbroken (hvalid : e.Valid word) (hline : e.OneLine) :
    ∀ c ∈ e.encode, isBreak c = false := by
  intro c hc
  unfold CefEvent.encode at hc
  rcases mem_append.mp hc with hc | hc
  · rcases mem_append.mp hc with hc | hc
    · simp only [cefMarker, mem_cons, not_mem_nil, or_false] at hc
      rcases hc with rfl | rfl | rfl | rfl
      all_goals decide
    · obtain ⟨field, hfield, hc⟩ := mem_flatMap.mp hc
      rcases mem_append.mp hc with hc | hc
      · exact escape_unbroken (by decide) (hline field hfield) c hc
      · rw [mem_singleton.mp hc]
        decide
  · rcases mem_extension hc with rfl | ⟨pair, hpair, hc⟩
    · decide
    · rcases mem_append.mp hc with hc | hc
      · exact keyShaped_unbroken (hvalid.shaped pair hpair) c hc
      · rcases mem_cons.mp hc with rfl | hc
        · decide
        · exact escape_unbroken (by decide) (hvalid.unbroken pair hpair) c hc

theorem endsText_append {a b : Text} (hb : b ≠ []) (h : EndsText b) : EndsText (a ++ b) := by
  intro c hc
  rw [getLast?_append_of_ne_nil _ hb] at hc
  exact h c hc

theorem endsText_extension {pairs : List (Text × Text)} (h : ∀ pair ∈ pairs, EndsText pair.2) :
    EndsText (List.intercalate [' '] (pairs.map encodePair)) := by
  have hpair : ∀ pair ∈ pairs, EndsText (encodePair pair) ∧ encodePair pair ≠ [] := by
    intro pair hmem
    have hne : encodePair pair ≠ [] :=
      append_ne_nil_of_right_ne_nil _ (cons_ne_nil _ _)
    refine ⟨endsText_append (cons_ne_nil _ _) ?_, hne⟩
    intro c hc
    cases hvalue : escape '=' pair.2 with
    | nil =>
      rw [hvalue] at hc
      cases hc
      decide
    | cons x text =>
      rw [hvalue] at hc
      apply endsText_escape (h pair hmem) c
      rw [hvalue]
      exact hc
  induction pairs with
  | nil =>
    intro c hc
    cases hc
  | cons pair pairs ih =>
    cases pairs with
    | nil =>
      rw [map_singleton, intercalate_singleton]
      exact (hpair pair mem_cons_self).1
    | cons next pairs =>
      rw [map_cons, map_cons, intercalate_cons_cons]
      have htail := ih (fun p hp => h p (mem_cons_of_mem _ hp))
        fun p hp => hpair p (mem_cons_of_mem _ hp)
      refine endsText_append ?_ htail
      have hnext := (hpair next (mem_cons_of_mem _ mem_cons_self)).2
      cases pairs with
      | nil =>
        rw [map_nil, intercalate_singleton]
        exact hnext
      | cons p pairs =>
        rw [map_cons, intercalate_cons_cons]
        exact append_ne_nil_of_left_ne_nil
          (append_ne_nil_of_left_ne_nil hnext _) _

theorem encode_trimmed (hvalid : e.Valid word) : Trimmed e.encode := by
  constructor
  · intro c hc
    cases hc
    decide
  · have hheader :
        EndsText (cefMarker ++ e.header.flatMap fun field => escape '|' field ++ ['|']) := by
      have hlast : (e.header.flatMap fun field => escape '|' field ++ ['|']) =
          (e.header.dropLast.flatMap fun field => escape '|' field ++ ['|']) ++
            (escape '|' e.severity ++ ['|']) := by
        unfold CefEvent.header
        simp only [List.dropLast, flatMap_cons, flatMap_nil, append_nil,
          append_assoc]
      rw [hlast, ← append_assoc, ← append_assoc]
      apply endsText_append (cons_ne_nil _ _)
      intro c hc
      cases hc
      decide
    have hextension := endsText_extension fun pair hpair => (hvalid.trimmed pair hpair).2
    unfold CefEvent.encode
    by_cases hnil : List.intercalate [' '] (e.extension.map encodePair) = []
    · rw [hnil, append_nil]
      exact hheader
    · exact endsText_append hnil hextension

def CefEvent.readBack (e : CefEvent) : Record :=
  (e.extension.map fun pair => (pair.1, escape '=' pair.2)).foldl addPair
    (headerRecord (escape '|' e.version) (unescapeCef (escape '|' e.vendor))
      (unescapeCef (escape '|' e.product)) (unescapeCef (escape '|' e.deviceVersion))
      (unescapeCef (escape '|' e.signatureId)) (unescapeCef (escape '|' e.name))
      (unescapeCef (escape '|' e.severity)) e.encode)

theorem splitEscaped_encode (e : CefEvent) :
    splitEscaped e.encode '|' 8 =
      (cefMarker ++ escape '|' e.version) :: e.header.tail.map (escape '|') ++
        [List.intercalate [' '] (e.extension.map encodePair)] := by
  have hmarker : escape '|' cefMarker = cefMarker := by decide
  have hfields := splitFrom_fields e.header cefMarker
    (List.intercalate [' '] (e.extension.map encodePair))
  have hfirst := splitFrom_escape 7 [] cefMarker
    ((e.header.flatMap fun field => escape '|' field ++ ['|']) ++
      List.intercalate [' '] (e.extension.map encodePair))
  rw [hmarker, nil_append] at hfirst
  unfold splitEscaped CefEvent.encode
  rw [append_assoc]
  exact hfirst.trans hfields

/-- **The line of an event is read as one record.** -/
theorem parseCef_encode (hvalid : e.Valid word) (hline : e.OneLine) :
    parseCef word (.text e.encode) = [e.readBack] := by
  have hne : e.encode ≠ [] := by
    unfold CefEvent.encode
    exact append_ne_nil_of_left_ne_nil
      (append_ne_nil_of_left_ne_nil (by decide) _) _
  have hmarker : cefMarker.isPrefixOf e.encode = true := by
    unfold CefEvent.encode
    rw [append_assoc]
    exact List.isPrefixOf_iff_prefix.mpr (prefix_append _ _)
  have hstrip : stripSyslogPrefix e.encode cefMarker = e.encode := by
    have hfind : findText cefMarker e.encode = some 0 := by
      obtain ⟨c, cs, hcons⟩ := exists_cons_of_ne_nil hne
      rw [hcons] at hmarker ⊢
      unfold findText
      rw [if_pos hmarker]
    unfold stripSyslogPrefix
    rw [hfind]
    rfl
  have hpairs := findPairs_extension hvalid.shaped
    fun pair hpair => (hvalid.trimmed pair hpair).2
  have hrecord : parseCefLine word e.encode = e.readBack := by
    unfold parseCefLine
    dsimp only
    rw [hstrip, hmarker, splitEscaped_encode]
    change (findPairs word 0 _).foldl addPair (headerRecord
      ((cefMarker ++ escape '|' e.version).drop cefMarker.length) _ _ _ _ _ _ _) = _
    rw [hpairs, drop_left]
    rfl
  unfold parseCef Payload.toText
  dsimp only
  rw [splitLines_unbroken hne (encode_unbroken hvalid hline), map_singleton,
    strip_of_trimmed (encode_trimmed hvalid), filter_cons, if_pos (decide_eq_true hne),
    filter_nil, map_singleton, if_neg (cons_ne_nil _ _), hrecord]

variable {value : Text}

theorem get?_readBack_header (hvalid : e.Valid word) {key : String} (hkey : key ∈ headerKeys)
    (h : (headerRecord (escape '|' e.version) (unescapeCef (escape '|' e.vendor))
      (unescapeCef (escape '|' e.product)) (unescapeCef (escape '|' e.deviceVersion))
      (unescapeCef (escape '|' e.signatureId)) (unescapeCef (escape '|' e.name))
      (unescapeCef (escape '|' e.severity)) e.encode).get? key.toList = some value) :
    e.readBack.get? key.toList = some value := by
  refine get?_foldl_of_ne ?_ h
  intro pair hpair heq
  obtain ⟨original, hmem, rfl⟩ := mem_map.mp hpair
  refine hvalid.apart original hmem ?_
  rw [show original.1 = key.toList from heq]
  exact mem_map_of_mem hkey

theorem escape_trimmed (h : Trimmed value) : Trimmed (escape '=' value) := by
  constructor
  · intro c hc
    cases value with
    | nil => cases hc
    | cons x value =>
      rw [escape_cons] at hc
      rcases escapeChar_cases '=' x with ⟨y, hy, -⟩ | ⟨hy, -⟩
      · rw [hy] at hc
        cases hc
        decide
      · rw [hy] at hc
        cases hc
        exact h.1 _ rfl
  · exact endsText_escape h.2

theorem get?_readBack_pair (hvalid : e.Valid word) {pair : Text × Text}
    (hpair : pair ∈ e.extension) :
    e.readBack.get? pair.1 = some (unescapeCef (escape '=' pair.2)) := by
  have hkeys : ((e.extension.map fun pair => (pair.1, escape '=' pair.2)).map Prod.fst) =
      e.extension.map Prod.fst := by
    rw [map_map]
    rfl
  have hmem : (pair.1, escape '=' pair.2) ∈
      e.extension.map fun pair => (pair.1, escape '=' pair.2) :=
    mem_map_of_mem hpair
  refine (get?_foldl_of_mem (by rw [hkeys]; exact hvalid.distinct) hmem).trans ?_
  dsimp only
  rw [strip_of_trimmed (escape_trimmed (hvalid.trimmed pair hpair))]

/-! ### The round trip -/

def CefEvent.headerEntries (e : CefEvent) : List (String × Text) :=
  [("cef_version", e.version), ("vendor", e.vendor), ("product", e.product),
    ("device_version", e.deviceVersion), ("signature_id", e.signatureId), ("name", e.name),
    ("severity", e.severity)]

structure CefEvent.Restores (e : CefEvent) (record : Record) : Prop where
  header : ∀ entry ∈ e.headerEntries, record.get? entry.1.toList = some entry.2
  extension : ∀ pair ∈ e.extension, record.get? pair.1 = some pair.2

/-- **The condition**: no backslash stands before an `n` or an `r`, the version has nothing that is
escaped, and the header fields have no other line boundary. -/
structure CefEvent.Legible (e : CefEvent) : Prop where
  line : e.OneLine
  version : ∀ c ∈ e.version, escapeChar '|' c = [c]
  header : ∀ field ∈ e.header, ¬ LineEndLike field
  extension : ∀ pair ∈ e.extension, ¬ LineEndLike pair.2

theorem length_le_escape (special : Char) (text : Text) :
    text.length ≤ (escape special text).length := by
  induction text with
  | nil => exact le_rfl
  | cons c text ih =>
    rw [escape_cons, length_append, length_cons]
    rcases escapeChar_cases special c with ⟨x, hx, -⟩ | ⟨hx, -⟩
    · rw [hx, length_cons, length_singleton]
      omega
    · rw [hx, length_singleton]
      omega

variable {text : Text}

theorem escape_eq_self_iff {special : Char} :
    escape special text = text ↔ ∀ c ∈ text, escapeChar special c = [c] := by
  induction text with
  | nil =>
    constructor
    · intro _ c hc
      cases hc
    · intro _
      rfl
  | cons c text ih =>
    rw [escape_cons, forall_mem_cons]
    rcases escapeChar_cases special c with ⟨x, hx, -⟩ | ⟨hx, -⟩
    · rw [hx]
      constructor
      · intro h
        have hlength := congrArg List.length h
        have hle := length_le_escape special text
        rw [length_append, length_cons, length_singleton,
          length_cons] at hlength
        omega
      · intro h
        have hlength : 2 = 1 := congrArg List.length h.1
        exact absurd hlength (by decide)
    · rw [hx, singleton_append, cons_eq_cons, ih]
      exact ⟨fun h => ⟨rfl, h.2⟩, fun h => ⟨rfl, h.2⟩⟩

theorem not_lineEndLike_of_plain (h : ∀ c ∈ text, escapeChar '|' c = [c]) :
    ¬ LineEndLike text := by
  have hslash : '\\' ∉ text := by
    intro hmem
    exact absurd (h _ hmem) (by decide)
  rintro (hn | hr)
  · exact hslash (hn.subset mem_cons_self)
  · exact hslash (hr.subset mem_cons_self)

/-- **Decoding undoes encoding** exactly where the condition holds. -/
theorem cef_restored_iff (hvalid : e.Valid word) :
    (∃ record, parseCef word (.text e.encode) = [record] ∧ e.Restores record) ↔ e.Legible := by
  have hheader : ∀ (key : String) (value : Text), key ∈ headerKeys →
      (headerRecord (escape '|' e.version) (unescapeCef (escape '|' e.vendor))
        (unescapeCef (escape '|' e.product)) (unescapeCef (escape '|' e.deviceVersion))
        (unescapeCef (escape '|' e.signatureId)) (unescapeCef (escape '|' e.name))
        (unescapeCef (escape '|' e.severity)) e.encode).get? key.toList = some value →
      e.readBack.get? key.toList = some value :=
    fun _ _ hkey h => get?_readBack_header hvalid hkey h
  have hversion := hheader "cef_version" (escape '|' e.version) (by decide) rfl
  have hfields : ∀ entry ∈ e.headerEntries.tail,
      e.readBack.get? entry.1.toList = some (unescapeCef (escape '|' entry.2)) := by
    intro entry hentry
    simp only [CefEvent.headerEntries, tail_cons, mem_cons, not_mem_nil,
      or_false] at hentry
    rcases hentry with rfl | rfl | rfl | rfl | rfl | rfl
    · exact hheader "vendor" _ (by decide) rfl
    · exact hheader "product" _ (by decide) rfl
    · exact hheader "device_version" _ (by decide) rfl
    · exact hheader "signature_id" _ (by decide) rfl
    · exact hheader "name" _ (by decide) rfl
    · exact hheader "severity" _ (by decide) rfl
  have hentries : e.headerEntries = ("cef_version", e.version) :: e.headerEntries.tail := rfl
  constructor
  · rintro ⟨record, hparse, hrestores⟩
    have hline : e.OneLine := by
      by_contra hbroken
      exact parseCef_of_broken hbroken record hparse
    rw [parseCef_encode hvalid hline] at hparse
    obtain rfl : e.readBack = record := (cons_eq_cons.mp hparse).1
    have hplain : ∀ c ∈ e.version, escapeChar '|' c = [c] := by
      have hkept := hrestores.header ("cef_version", e.version) mem_cons_self
      rw [hversion] at hkept
      exact escape_eq_self_iff.mp (Option.some.inj hkept)
    refine ⟨hline, hplain, ?_, ?_⟩
    · intro field hfield
      obtain ⟨entry, hentry, rfl⟩ :=
        mem_map.mp (show field ∈ e.headerEntries.map Prod.snd from hfield)
      have hkept := hrestores.header entry hentry
      rw [hentries] at hentry
      rcases mem_cons.mp hentry with rfl | htail
      · exact not_lineEndLike_of_plain hplain
      · rw [hfields entry htail] at hkept
        exact (unescape_escape_iff (.inl rfl) _).mp (Option.some.inj hkept)
    · intro pair hpair
      have hkept := hrestores.extension pair hpair
      rw [get?_readBack_pair hvalid hpair] at hkept
      exact (unescape_escape_iff (.inr rfl) _).mp (Option.some.inj hkept)
  · intro hlegible
    refine ⟨e.readBack, parseCef_encode hvalid hlegible.line, ?_, ?_⟩
    · intro entry hentry
      have hfield : entry.2 ∈ e.header :=
        show entry.2 ∈ e.headerEntries.map Prod.snd from mem_map_of_mem hentry
      rw [hentries] at hentry
      rcases mem_cons.mp hentry with rfl | htail
      · rw [hversion, escape_eq_self_iff.mpr hlegible.version]
      · rw [hfields entry htail,
          (unescape_escape_iff (.inl rfl) _).mpr (hlegible.header _ hfield)]
    · intro pair hpair
      rw [get?_readBack_pair hvalid hpair,
        (unescape_escape_iff (.inr rfl) _).mpr (hlegible.extension pair hpair)]

end Reading

def asciiWord : WordClass where
  holds c := decide (c.toNat < 128) && (c.isAlphanum || c == '_')
  ascii c h := by rw [decide_eq_true h, Bool.true_and]
  space c h := by
    by_contra hword
    rw [Bool.not_eq_false, Bool.and_eq_true, decide_eq_true_eq] at hword
    obtain ⟨hascii, hletter⟩ := hword
    have hlow : c.toNat ≤ 32 := by
      unfold isSpace at h
      simp only [Bool.or_eq_true, Bool.and_eq_true, decide_eq_true_eq, beq_iff_eq] at h
      omega
    have hnot : c ≠ '_' := by
      rintro rfl
      exact absurd hlow (by decide)
    rw [beq_eq_false_iff_ne.mpr hnot, Bool.or_false] at hletter
    unfold Char.isAlphanum Char.isAlpha Char.isUpper Char.isLower Char.isDigit at hletter
    simp only [Bool.or_eq_true, Bool.and_eq_true, decide_eq_true_eq, UInt32.le_iff_toNat_le,
      ge_iff_le] at hletter
    have hval : c.toNat = c.val.toNat := rfl
    have hA : 'A'.val.toNat = 65 := rfl
    have ha : 'a'.val.toNat = 97 := rfl
    have h0 : '0'.val.toNat = 48 := rfl
    omega

def eventOf (value : Text) : CefEvent where
  version := ['0']
  vendor := ['V']
  product := ['P']
  deviceVersion := ['1']
  signatureId := ['7']
  name := ['n']
  severity := ['5']
  extension := [(['f'], value)]

variable {value : Text}

theorem eventOf_valid (htrimmed : Trimmed value)
    (hunbroken : ∀ c ∈ value, isBreak c = true → c = '\n' ∨ c = '\r') :
    (eventOf value).Valid asciiWord := by
  have hpair : ∀ pair ∈ (eventOf value).extension, pair = (['f'], value) :=
    fun pair hpair => mem_singleton.mp hpair
  constructor
  · intro pair hmem
    rw [hpair pair hmem]
    refine ⟨'f', [], rfl, by decide, ?_⟩
    intro x hx
    cases hx
  · exact nodup_singleton _
  · intro pair hmem
    rw [hpair pair hmem]
    change ['f'] ∉ headerKeys.map String.toList
    decide
  · intro pair hmem
    rw [hpair pair hmem]
    exact htrimmed
  · intro pair hmem
    rw [hpair pair hmem]
    exact hunbroken

theorem isBreak_of_printable (h : 32 ≤ c.toNat ∧ c.toNat < 128) : isBreak c = false := by
  by_contra hbreak
  rw [Bool.not_eq_false] at hbreak
  have hmem := contains_iff_mem.mp hbreak
  simp only [mem_cons, not_mem_nil, or_false] at hmem
  rcases hmem with rfl | rfl | rfl | rfl | rfl | rfl | rfl | rfl | rfl | rfl
  all_goals exact absurd h (by decide)

theorem eventOf_oneLine (value : Text) : (eventOf value).OneLine := by
  have hprintable : ∀ field ∈ (eventOf []).header, ∀ c ∈ field, 32 ≤ c.toNat ∧ c.toNat < 128 := by
    simp [CefEvent.header, eventOf]
  intro field hfield c hc hbreak
  rw [isBreak_of_printable (hprintable field hfield c hc)] at hbreak
  cases hbreak

theorem eventOf_valid_of_printable (htrimmed : Trimmed value)
    (h : ∀ c ∈ value, 32 ≤ c.toNat ∧ c.toNat < 128) : (eventOf value).Valid asciiWord := by
  apply eventOf_valid htrimmed
  intro c hc hbreak
  rw [isBreak_of_printable (h c hc)] at hbreak
  cases hbreak

/-- A value that looks like the next pair, and ends with a backslash. -/
theorem cef_restored_of_sample : ∃ record,
    parseCef asciiWord (.text (eventOf ['a', '=', 'b', ' ', 'c', '=', 'd', '\\']).encode) =
      [record] ∧ (eventOf ['a', '=', 'b', ' ', 'c', '=', 'd', '\\']).Restores record := by
  have hvalid : (eventOf ['a', '=', 'b', ' ', 'c', '=', 'd', '\\']).Valid asciiWord := by
    apply eventOf_valid_of_printable
    · exact ⟨by rintro c ⟨⟩; rfl, by rintro c ⟨⟩; rfl⟩
    · simp
  refine (cef_restored_iff hvalid).mpr ⟨eventOf_oneLine _, ?_, ?_, ?_⟩
  · simp [eventOf, escapeChar]
  · decide
  · decide

/-- A Windows path is read with a line feed in it. -/
theorem path_not_restored :
    ¬ ∃ record, parseCef asciiWord (.text (eventOf ['C', ':', '\\', 'n']).encode) = [record] ∧
      (eventOf ['C', ':', '\\', 'n']).Restores record := by
  have hvalid : (eventOf ['C', ':', '\\', 'n']).Valid asciiWord := by
    apply eventOf_valid_of_printable
    · exact ⟨by rintro c ⟨⟩; rfl, by rintro c ⟨⟩; rfl⟩
    · simp
  rintro ⟨record, hparse, hrestores⟩
  rw [parseCef_encode hvalid (eventOf_oneLine _)] at hparse
  obtain rfl := (cons_eq_cons.mp hparse).1
  have hkept := hrestores.extension _ mem_cons_self
  rw [get?_readBack_pair hvalid mem_cons_self] at hkept
  exact absurd hkept (by decide)

end AgenticKibana.Receivers
