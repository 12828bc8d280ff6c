import AgenticKibana.Conversations.ArchiveRuns
import AgenticKibana.Conversations.Replay

/-!
# What a read restores

However a question and its answer are shortened, beside each other in the row or on a page, they
stay the copy of their exchange: either the answer says that it is not the whole one, and then both
are restored, or neither was shortened.
-/

namespace AgenticKibana.Conversations

open AgenticKibana.Library List

/-! ### Questions and their answers -/

def Contains (C : Message → Message → Prop) (messages : List Message) : Prop :=
  ∃ before question answer after,
    messages = before ++ question :: answer :: after ∧ C question answer

structure KeptShort (C : Message → Message → Prop) : Prop where
  user : ∀ {question answer}, C question answer → question.role = .user
  backed : ∀ {question answer}, C question answer → exchangeBacked answer = true
  answer : ∀ {question answer}, C question answer → C question (shortAnswer answer)
  question : ∀ {question answer}, C question (shortAnswer answer) →
    C (shortQuestion question) (shortAnswer answer)

section Shortening

variable {C : Message → Message → Prop} {enc : Encoding} {messages others : List Message}

theorem Contains.append_left (h : Contains C messages) : Contains C (others ++ messages) := by
  obtain ⟨before, question, answer, after, rfl, hC⟩ := h
  refine ⟨others ++ before, question, answer, after, ?_, hC⟩
  rw [append_assoc]

theorem Contains.append_right (h : Contains C messages) : Contains C (messages ++ others) := by
  obtain ⟨before, question, answer, after, rfl, hC⟩ := h
  refine ⟨before, question, answer, after ++ others, ?_, hC⟩
  rw [append_assoc]
  rfl

variable {m : Message}

theorem role_of_backed (h : exchangeBacked m = true) : m.role = .assistant := by
  unfold exchangeBacked at h
  rw [Bool.and_eq_true, decide_eq_true_eq] at h
  exact h.1

theorem not_backed_of_user (h : m.role = .user) : exchangeBacked m = false := by
  unfold exchangeBacked
  rw [h]
  rfl

theorem Contains.cut (hC : KeptShort C) {first rest : List Message}
    (h : Contains C (first ++ rest)) (hend : ∀ m, first.getLast? = some m → m.role = .assistant) :
    Contains C first ∨ Contains C rest := by
  obtain ⟨before, question, answer, after, heq, hrel⟩ := h
  rcases append_eq_append_iff.mp heq with ⟨middle, hbefore, hrest⟩ | ⟨middle, hfirst, hrest⟩
  · exact .inr ⟨middle, question, answer, after, hrest, hrel⟩
  · cases middle with
    | nil =>
      refine .inr ⟨[], question, answer, after, ?_, hrel⟩
      rw [nil_append] at hrest
      exact hrest.symm
    | cons m middle =>
      rw [cons_append, List.cons.injEq] at hrest
      obtain ⟨rfl, hrest⟩ := hrest
      cases middle with
      | nil =>
        -- the list would end with a question
        have hlast := hend question (by rw [hfirst, getLast?_concat])
        rw [hC.user hrel] at hlast
        cases hlast
      | cons m' middle =>
        rw [cons_append, List.cons.injEq] at hrest
        obtain ⟨rfl, hrest⟩ := hrest
        exact .inl ⟨before, question, answer, middle, hfirst, hrel⟩

theorem Contains.archivedForm (hC : KeptShort C) (h : Contains C messages) :
    Contains C (archivedForm messages) := by
  obtain ⟨before, question, answer, after, rfl, hrel⟩ := h
  induction before with
  | nil =>
    have hbacked := hC.backed hrel
    rw [nil_append, Conversations.archivedForm, Conversations.archivedForm,
      not_backed_of_user (hC.user hrel), hbacked, head?_cons, Option.any_some, hbacked]
    exact ⟨[], _, _, _, rfl, hC.question (hC.answer hrel)⟩
  | cons m before ih =>
    obtain ⟨before', question', answer', after', heq, hrel'⟩ := ih
    rw [cons_append, Conversations.archivedForm, heq]
    exact ⟨_ :: before', question', answer', after', rfl, hrel'⟩

theorem Contains.replace {done rest : List Message} {m' : Message}
    (h : Contains C (done ++ m :: rest)) (hleft : ∀ question, C question m → C question m')
    (hright : ∀ answer, rest.head? = some answer → C m answer → C m' answer) :
    Contains C (done ++ m' :: rest) := by
  obtain ⟨before, question, answer, after, heq, hrel⟩ := h
  rcases append_eq_append_iff.mp heq with ⟨middle, hbefore, hrest⟩ | ⟨middle, hdone, hrest⟩
  · cases middle with
    | nil =>
      rw [nil_append, List.cons.injEq] at hrest
      obtain ⟨rfl, rfl⟩ := hrest
      exact ⟨done, m', answer, after, rfl, hright answer rfl hrel⟩
    | cons x middle =>
      rw [cons_append, List.cons.injEq] at hrest
      obtain ⟨rfl, rfl⟩ := hrest
      refine ⟨done ++ m' :: middle, question, answer, after, ?_, hrel⟩
      rw [append_assoc]
      rfl
  · cases middle with
    | nil =>
      rw [nil_append, List.cons.injEq] at hrest
      obtain ⟨rfl, rfl⟩ := hrest
      exact ⟨done, m', answer, after, rfl, hright answer rfl hrel⟩
    | cons x middle =>
      rw [cons_append, List.cons.injEq] at hrest
      obtain ⟨rfl, hrest⟩ := hrest
      cases middle with
      | nil =>
        rw [nil_append, List.cons.injEq] at hrest
        obtain ⟨rfl, rfl⟩ := hrest
        refine ⟨before, question, m', after, ?_, hleft question hrel⟩
        rw [hdone, append_assoc]
        rfl
      | cons y middle =>
        rw [cons_append, List.cons.injEq] at hrest
        obtain ⟨rfl, rfl⟩ := hrest
        refine ⟨before, question, answer, middle ++ m' :: rest, ?_, hrel⟩
        rw [hdone, append_assoc]
        rfl

/-- **Trimming shortens a question only with its answer.** -/
theorem Contains.trimLoop (hC : KeptShort C) (room : Nat) (total : Int) (done rest : List Message)
    (h : Contains C (done.reverse ++ rest)) :
    Contains C (trimLoop enc room total done rest) := by
  have hshort : ∀ {m : Message}, exchangeBacked m = true → ∀ {done rest : List Message},
      Contains C (done ++ m :: rest) → Contains C (done ++ shortAnswer m :: rest) := by
    intro m hm done rest hcontains
    refine hcontains.replace (fun question => hC.answer) ?_
    intro answer _ hrel
    have huser := hC.user hrel
    rw [role_of_backed hm] at huser
    cases huser
  induction room generalizing total done rest with
  | zero => exact h
  | succ room ih =>
    cases rest with
    | nil =>
      rw [append_nil] at h
      rw [Conversations.trimLoop]
      · exact h
      · exact Nat.succ_ne_zero room
    | cons m rest =>
      rw [Conversations.trimLoop]
      split
      · exact h
      split
      · apply ih
        rw [reverse_cons, append_assoc]
        exact h
      split
      · rename_i hbacked
        cases done with
        | nil => exact ih _ _ _ (hshort hbacked h)
        | cons prior done =>
          apply ih
          rw [reverse_cons, append_assoc] at h
          have hcontains : Contains C ((done.reverse ++ [prior]) ++ m :: rest) := by
            rw [append_assoc]
            exact h
          have hanswer := hshort hbacked hcontains
          rw [append_assoc] at hanswer
          rw [reverse_cons, reverse_cons, append_assoc, append_assoc]
          refine Contains.replace hanswer ?_ ?_
          · -- an answer is not shortened as a question
            intro question hrel
            have hrole := role_of_backed (hC.backed hrel)
            have hsame : shortQuestion prior = prior := by
              unfold shortQuestion
              rw [if_neg]
              rintro ⟨huser, -⟩
              rw [hrole] at huser
              cases huser
            rw [hsame]
            exact hrel
          · intro answer hhead hrel
            have hhead : shortAnswer m = answer := Option.some.inj hhead
            subst hhead
            exact hC.question hrel
      · rename_i hrole hbacked
        apply ih
        rw [reverse_cons, append_assoc]
        refine Contains.replace h ?_ ?_
        · intro question hrel
          exact absurd (hC.backed hrel) hbacked
        · intro answer _ hrel
          push Not at hrole
          have huser := hC.user hrel
          rw [hrole.1] at huser
          cases huser

theorem Contains.trimMessages (hC : KeptShort C) (h : Contains C messages) :
    Contains C (trimMessages enc messages) := by
  unfold Conversations.trimMessages
  dsimp only
  split
  · exact h
  · exact Contains.trimLoop hC _ _ [] messages h

end Shortening

section Copies

variable {p : Presentations} {e : Exchange} {question answer : Message}

structure IsCopy (p : Presentations) (e : Exchange) (question answer : Message) : Prop where
  userTag : question.tag = (e.userMessageId, .user)
  assistantTag : answer.tag = (e.assistantMessageId, .assistant)
  backed : exchangeBacked answer = true
  whole : needsHydration answer = false →
    question.content = e.userContent ∧ answer.content = e.assistantContent ∧
      ∀ content, responseView (decodeResponse p answer.response content) =
        responseView (decodeResponse p (e.record p).response content)
  short : needsHydration answer = false → isMinimal answer = true →
    question.content.length ≤ reducedPreviewChars

theorem IsCopy.of_needsHydration (huser : question.tag = (e.userMessageId, .user))
    (hassistant : answer.tag = (e.assistantMessageId, .assistant))
    (h : needsHydration answer = true) : IsCopy p e question answer where
  userTag := huser
  assistantTag := hassistant
  backed := by
    unfold needsHydration at h
    rw [Bool.and_eq_true] at h
    exact h.1
  whole := by
    intro hno
    rw [h] at hno
    cases hno
  short := by
    intro hno
    rw [h] at hno
    cases hno

variable {m : Message}

theorem reduced_needsHydration (h : m.role = .assistant) :
    needsHydration (reducedAssistant m) = true := by
  have hrole : (reducedAssistant m).role = .assistant := h
  unfold needsHydration exchangeBacked
  rw [hrole, Bool.and_eq_true, Bool.and_eq_true]
  unfold isTruncated reducedAssistant Message.stored
  dsimp only
  rw [Option.getD_some, Dict.get?_set_of_ne _ _ (by decide), Dict.get?_set_self,
    Dict.get?_set_self]
  exact ⟨⟨rfl, rfl⟩, rfl⟩

theorem shortAnswer_cases (h : m.role = .assistant) :
    (isMinimal m = true ∧ shortAnswer m = m) ∨ needsHydration (shortAnswer m) = true := by
  unfold shortAnswer
  by_cases hm : isMinimal m = true
  · rw [if_pos hm]
    exact .inl ⟨hm, rfl⟩
  · rw [if_neg hm]
    exact .inr (reduced_needsHydration h)

/-- **Shortening keeps a copy a copy.** -/
theorem isCopy_keptShort (p : Presentations) (e : Exchange) : KeptShort (IsCopy p e) where
  user h := (Prod.mk.inj h.userTag).2
  backed h := h.backed
  answer := by
    intro question answer h
    rcases shortAnswer_cases (role_of_backed h.backed) with ⟨-, hsame⟩ | hneeds
    · rw [hsame]
      exact h
    · exact .of_needsHydration h.userTag ((tag_shortAnswer answer).trans h.assistantTag) hneeds
  question := by
    intro question answer h
    have htag := (tag_shortQuestion question).trans h.userTag
    by_cases hneeds : needsHydration (shortAnswer answer) = true
    · exact .of_needsHydration htag h.assistantTag hneeds
    · have hrole : answer.role = .assistant :=
        (Prod.mk.inj ((tag_shortAnswer answer).symm.trans h.assistantTag)).2
      obtain ⟨hminimal, hsame⟩ := (shortAnswer_cases hrole).resolve_right hneeds
      rw [hsame] at h hneeds ⊢
      -- the answer was not shortened, so the question is short already
      have hsmall := h.short (Bool.eq_false_iff.mpr hneeds) hminimal
      have hquestion : shortQuestion question = question := by
        unfold shortQuestion
        rw [if_neg]
        rintro ⟨-, hlong⟩
        omega
      rw [hquestion]
      exact h

structure AnswerCopy (p : Presentations) (e : Exchange) (answer : Message) : Prop where
  tag : answer.tag = (e.assistantMessageId, .assistant)
  backed : exchangeBacked answer = true
  whole : needsHydration answer = false →
    answer.content = e.assistantContent ∧
      ∀ content, responseView (decodeResponse p answer.response content) =
        responseView (decodeResponse p (e.record p).response content)

theorem AnswerCopy.of_needsHydration (htag : answer.tag = (e.assistantMessageId, .assistant))
    (h : needsHydration answer = true) : AnswerCopy p e answer where
  tag := htag
  backed := by
    unfold needsHydration at h
    rw [Bool.and_eq_true] at h
    exact h.1
  whole := by
    intro hno
    rw [h] at hno
    cases hno

theorem AnswerCopy.short (h : AnswerCopy p e answer) : AnswerCopy p e (shortAnswer answer) := by
  rcases shortAnswer_cases (role_of_backed h.backed) with ⟨-, hsame⟩ | hneeds
  · rw [hsame]
    exact h
  · exact .of_needsHydration ((tag_shortAnswer answer).trans h.tag) hneeds

theorem clip_eq {text : Text} {limit : Nat} (h : (clip text limit).2 = false) :
    (clip text limit).1 = text := by
  unfold clip at h ⊢
  split at h
  · rename_i hle
    rw [if_pos hle]
  · cases h

theorem get?_inlineResponse (hwhole : e.isWhole p = true) {key : String}
    (htruncated : key ≠ "truncated") (hmarker : key ≠ exchangeMarker) :
    (e.inlineResponse p).get? key =
      ((encodeAssistantResponse p e.response true).1.getD Dict.empty).get? key := by
  unfold Exchange.inlineResponse
  dsimp only
  rw [if_pos hwhole, Dict.get?_set_of_ne _ _ hmarker, Dict.get?_erase, if_neg htruncated]

theorem needsHydration_saved (hwhole : e.isWhole p ≠ true) :
    needsHydration (e.assistantMessage p) = true := by
  unfold needsHydration exchangeBacked isTruncated Exchange.assistantMessage Message.stored
    Exchange.inlineResponse
  dsimp only
  rw [if_neg hwhole, Option.getD_some, Dict.get?_set_self, Dict.get?_set_of_ne _ _ (by decide),
    Dict.get?_set_self]
  rfl

theorem answerCopy_saved (p : Presentations) (e : Exchange) :
    AnswerCopy p e (e.assistantMessage p) := by
  by_cases hwhole : e.isWhole p = true
  · have hparts := hwhole
    unfold Exchange.isWhole at hparts
    simp only [Bool.and_eq_true, Bool.not_eq_true'] at hparts
    obtain ⟨⟨⟨⟨-, hassistant⟩, -⟩, hcomplete⟩, -⟩ := hparts
    refine ⟨rfl, ?_, ?_⟩
    · unfold exchangeBacked Exchange.assistantMessage Message.stored Exchange.inlineResponse
      dsimp only
      rw [Option.getD_some, Dict.get?_set_self]
      rfl
    · intro _
      refine ⟨clip_eq hassistant, ?_⟩
      intro content
      exact (responseView_congr p (s := some (e.inlineResponse p))
        fun _ => get?_inlineResponse hwhole).trans (responseView_of_inlineIsComplete p hcomplete)
  · exact .of_needsHydration rfl (needsHydration_saved hwhole)

theorem isCopy_saved (hkeeps : e.isWhole p = true →
      ((encodeAssistantResponse p e.response true).1.getD Dict.empty).contains
        presentationKey = false →
      e.assistantContent.length ≤ reducedPreviewChars →
        e.userContent.length ≤ reducedPreviewChars) :
    IsCopy p e e.userMessage (e.assistantMessage p) := by
  have hanswer := answerCopy_saved p e
  by_cases hwhole : e.isWhole p = true
  · have hparts := hwhole
    unfold Exchange.isWhole at hparts
    simp only [Bool.and_eq_true, Bool.not_eq_true'] at hparts
    obtain ⟨⟨⟨⟨huser, hassistant⟩, -⟩, -⟩, -⟩ := hparts
    refine ⟨rfl, hanswer.tag, hanswer.backed, ?_, ?_⟩
    · intro hneeds
      exact ⟨clip_eq huser, hanswer.whole hneeds⟩
    · intro _ hminimal
      unfold isMinimal Exchange.assistantMessage Message.stored at hminimal
      dsimp only at hminimal
      rw [Option.getD_some, Bool.and_eq_true, Bool.not_eq_true', decide_eq_true_eq,
        clip_eq hassistant] at hminimal
      have hpresentation : ((encodeAssistantResponse p e.response true).1.getD
          Dict.empty).contains presentationKey = false := by
        rw [← hminimal.1]
        unfold Dict.contains
        rw [get?_inlineResponse hwhole (by decide) (by decide)]
      exact (congrArg List.length (clip_eq huser)).trans_le
        (hkeeps hwhole hpresentation hminimal.2)
  · exact .of_needsHydration rfl rfl (needsHydration_saved hwhole)

end Copies

/-! ### Restoring a window -/

section Windows

variable (docs : ExchangeDocs)

theorem tag_hydrated (m : Message) (next : Option Message) :
    (hydrated docs m next).tag = m.tag := by
  unfold hydrated
  split
  · rfl
  · split
    · split <;> rfl
    · rfl

theorem tags_hydrate (messages : List Message) :
    (hydrate docs messages).map Message.tag = messages.map Message.tag := by
  induction messages with
  | nil => rfl
  | cons m rest ih => rw [hydrate, map_cons, map_cons, tag_hydrated, ih]

theorem hydrate_drop (messages : List Message) (n : Nat) :
    hydrate docs (messages.drop n) = (hydrate docs messages).drop n := by
  induction n generalizing messages with
  | zero => rfl
  | succ n ih =>
    cases messages with
    | nil => rfl
    | cons m rest =>
      rw [hydrate, drop_succ_cons, drop_succ_cons]
      exact ih rest

theorem hydrate_take (messages : List Message) (n : Nat) :
    (hydrate docs (messages.take (n + 1))).take n = (hydrate docs messages).take n := by
  induction n generalizing messages with
  | zero => rfl
  | succ n ih =>
    cases messages with
    | nil => rfl
    | cons m rest =>
      have hhead : (rest.take (n + 1)).head? = rest.head? := by
        cases rest <;> rfl
      rw [take_succ_cons, hydrate, hydrate, take_succ_cons, take_succ_cons,
        hhead, ih rest]

/-- **A window reads as the transcript does.** -/
theorem hydrate_window {messages : List Message} {low start stop : Nat} (hlow : low ≤ start)
    (hstop : stop ≤ messages.length) :
    ((hydrate docs ((messages.take (min messages.length (stop + 1))).drop low)).drop
      (start - low)).take (stop - start) = ((hydrate docs messages).take stop).drop start := by
  have htake : (hydrate docs (messages.take (min messages.length (stop + 1)))).take stop =
      (hydrate docs messages).take stop := by
    by_cases hend : stop + 1 ≤ messages.length
    · rw [Nat.min_eq_right hend, hydrate_take]
    · rw [Nat.min_eq_left (by omega), take_length]
  rw [hydrate_drop, drop_drop, Nat.add_sub_cancel' hlow, ← htake, drop_take]

variable {question : Message} {e : Exchange} {p : Presentations}

theorem restoredFrom_of_user (h : question.role = .user) :
    restoredFrom docs question = none := by
  unfold restoredFrom needsHydration
  rw [not_backed_of_user h]
  rfl

variable {answer : Message}

theorem restoredFrom_answer (hid : answer.id = e.assistantMessageId)
    (hneeds : needsHydration answer = true) (hdoc : docs e.assistantMessageId = some (e.record p)) :
    restoredFrom docs answer = some (e.record p) := by
  unfold restoredFrom loadExchange
  rw [if_pos hneeds, hid, hdoc]
  exact Option.filter_some_pos (decide_eq_true rfl)

theorem hydrated_whole {next : Option Message} (hrole : answer.role = .assistant)
    (hneeds : needsHydration answer ≠ true) : hydrated docs answer next = answer := by
  unfold hydrated
  rw [show restoredFrom docs answer = none from if_neg hneeds]
  dsimp only
  split
  · rw [if_neg]
    rintro ⟨huser, -⟩
    rw [hrole] at huser
    cases huser
  · rfl

theorem hydrated_answer (next : Option Message) (h : AnswerCopy p e answer)
    (hdoc : docs e.assistantMessageId = some (e.record p)) :
    (hydrated docs answer next).content = e.assistantContent ∧
      ∀ content, responseView (decodeResponse p (hydrated docs answer next).response content) =
        responseView (decodeResponse p (e.record p).response content) := by
  obtain ⟨hid, hrole⟩ := Prod.mk.inj h.tag
  by_cases hneeds : needsHydration answer = true
  · unfold hydrated
    rw [restoredFrom_answer docs hid hneeds hdoc]
    refine ⟨rfl, ?_⟩
    intro content
    apply responseView_congr
    intro key htruncated hmarker
    unfold restoredResponse
    dsimp only
    rw [Option.getD_some]
    split
    · exact Dict.get?_set_of_ne _ _ hmarker
    · rw [Dict.get?_erase, if_neg htruncated, Dict.get?_set_of_ne _ _ hmarker]
  · rw [hydrated_whole docs hrole hneeds]
    exact h.whole (Bool.eq_false_iff.mpr hneeds)

theorem IsCopy.answerCopy (h : IsCopy p e question answer) : AnswerCopy p e answer :=
  ⟨h.assistantTag, h.backed, fun hneeds => (h.whole hneeds).2⟩

theorem hydrate_copy (after : List Message) (h : IsCopy p e question answer)
    (hdoc : docs e.assistantMessageId = some (e.record p)) :
    ∃ question' answer' rest, hydrate docs (question :: answer :: after) =
        question' :: answer' :: rest ∧
      question'.tag = (e.userMessageId, .user) ∧
      answer'.tag = (e.assistantMessageId, .assistant) ∧
      question'.content = e.userContent ∧ answer'.content = e.assistantContent ∧
      ∀ content, responseView (decodeResponse p answer'.response content) =
        responseView (decodeResponse p (e.record p).response content) := by
  obtain ⟨hquestionId, hquestionRole⟩ := Prod.mk.inj h.userTag
  refine ⟨hydrated docs question (some answer), hydrated docs answer after.head?,
    hydrate docs after, rfl, (tag_hydrated docs _ _).trans h.userTag,
    (tag_hydrated docs _ _).trans h.assistantTag, ?_,
    hydrated_answer docs _ h.answerCopy hdoc⟩
  unfold hydrated
  rw [restoredFrom_of_user docs hquestionRole, Option.bind_some]
  by_cases hneeds : needsHydration answer = true
  · rw [restoredFrom_answer docs (Prod.mk.inj h.assistantTag).1 hneeds hdoc]
    dsimp only
    rw [if_pos ⟨hquestionRole, hquestionId⟩]
    rfl
  · rw [show restoredFrom docs answer = none from if_neg hneeds]
    exact (h.whole (Bool.eq_false_iff.mpr hneeds)).1

end Windows

/-! ### Soundness -/

structure ArchivedSound (p : Presentations) (c : Conversation) (archive : List Message) : Prop where
  count : archive.length = c.row.count
  pages : Pages.Holds pageSize c.pages archive
  tags : (archive ++ c.row.messages).map Message.tag = c.tags
  copies : ∀ e ∈ c.saved,
    Contains (IsCopy p e) archive ∨ Contains (IsCopy p e) c.row.messages

structure ReplaySound (p : Presentations) (c : Conversation) : Prop where
  archived : ∃ archive, ArchivedSound p c archive
  ids : (c.tags.map Prod.fst).Nodup
  docs : ∀ e ∈ c.saved, c.docs e.assistantMessageId = some (e.record p)

section Steps

variable {enc : Encoding} {p : Presentations} {c c' : Conversation} {archive : List Message}

theorem tags_saved (c : Conversation) (e : Exchange) :
    (saveExchange enc p c e).tags = c.tags ++ e.tags := by
  unfold Conversation.tags saveExchange
  dsimp only
  rw [flatMap_append, flatMap_singleton, append_assoc]

variable {e : Exchange}

theorem answerId_mem_tags (he : e ∈ c.saved) : e.assistantMessageId ∈ c.tags.map Prod.fst := by
  refine mem_map.mpr ⟨(e.assistantMessageId, .assistant), ?_, rfl⟩
  refine mem_append_right _ (mem_flatMap.mpr ⟨e, he, ?_⟩)
  exact mem_cons_of_mem _ (mem_singleton_self _)

theorem nodup_tags (h : (c.tags.map Prod.fst).Nodup)
    (hnew : e.userMessageId ≠ e.assistantMessageId ∧ e.userMessageId ∉ c.tags.map Prod.fst ∧
      e.assistantMessageId ∉ c.tags.map Prod.fst) : ((c.tags ++ e.tags).map Prod.fst).Nodup := by
  obtain ⟨hne, huser, hassistant⟩ := hnew
  rw [map_append]
  refine nodup_append.mpr ⟨h, nodup_cons.mpr ⟨?_, nodup_singleton _⟩, ?_⟩
  · intro hmem
    exact hne (mem_singleton.mp hmem)
  · intro id hid other hother heq
    subst heq
    rcases mem_cons.mp hother with rfl | hlast
    · exact huser hid
    · obtain rfl := mem_singleton.mp hlast
      exact hassistant hid

/-- **An exchange is saved.** -/
theorem ReplaySound.save (h : ReplaySound p c) (hnew : ((c.tags ++ e.tags).map Prod.fst).Nodup)
    (hkeeps : KeepsQuestion p c (.save e)) : ReplaySound p (saveExchange enc p c e) where
  archived := by
    obtain ⟨archive, harchive⟩ := h.archived
    refine ⟨archive, harchive.count, harchive.pages, ?_, ?_⟩
    · rw [tags_saved, ← harchive.tags, map_append, map_append, append_assoc]
      unfold saveExchange
      dsimp only
      rw [tags_trimMessages, map_append]
      rfl
    · intro e' he'
      rcases mem_append.mp he' with hold | hmem
      · refine (harchive.copies e' hold).imp_right fun hrow => ?_
        exact Contains.trimMessages (isCopy_keptShort p e') hrow.append_right
      · obtain rfl := mem_singleton.mp hmem
        refine .inr (Contains.trimMessages (isCopy_keptShort p e') ?_)
        exact ⟨c.row.messages, _, _, [], rfl, isCopy_saved hkeeps⟩
  ids := by
    rw [tags_saved]
    exact hnew
  docs := by
    intro e' he'
    unfold saveExchange
    dsimp only
    rcases mem_append.mp he' with hold | hmem
    · rw [Function.update_of_ne]
      · exact h.docs e' hold
      · -- the id is new
        intro heq
        rw [map_append] at hnew
        refine (nodup_append.mp hnew).2.2 _ (answerId_mem_tags hold) _ ?_ heq
        exact mem_cons_of_mem _ (mem_singleton_self _)
    · obtain rfl := mem_singleton.mp hmem
      exact Function.update_self _ _ _

theorem cutBefore_spec (messages : List Message) (limit : Nat) :
    cutBefore messages limit ≤ limit ∧ ∀ m,
      (messages.take (cutBefore messages limit)).getLast? = some m → m.role = .assistant := by
  induction limit with
  | zero =>
    refine ⟨le_rfl, ?_⟩
    intro m hm
    cases hm
  | succ limit ih =>
    rw [cutBefore]
    split
    · rename_i hrole
      refine ⟨le_rfl, ?_⟩
      intro m hm
      cases hget : messages[limit]? with
      | none =>
        rw [hget] at hrole
        cases hrole
      | some m' =>
        rw [hget, Option.any_some, decide_eq_true_eq] at hrole
        rw [take_add_one, hget, Option.toList_some, getLast?_concat] at hm
        cases hm
        exact hrole
    · exact ⟨ih.1.trans (Nat.le_succ _), ih.2⟩

theorem loadPage_drop (h : ArchivedSound p c archive) {a : Archiver} {items : List Message}
    (hcount : a.count = c.row.count) (hitems : loadPage c.pages a = some items) :
    items = (archive ++ a.moved).drop (a.count / pageSize * pageSize) := by
  have hlength := h.count
  have hpage : a.count / pageSize * pageSize ≤ a.count := Nat.div_mul_le_self _ _
  have hlast : a.count < a.count / pageSize * pageSize + pageSize :=
    Nat.lt_div_mul_add pageSize_pos
  have hdrop : (archive ++ a.moved).drop (a.count / pageSize * pageSize) =
      archive.drop (a.count / pageSize * pageSize) ++ a.moved :=
    drop_append_of_le_length (by omega)
  rw [hdrop]
  unfold loadPage at hitems
  dsimp only at hitems
  split at hitems
  · rename_i hoffset
    cases hitems
    rw [drop_eq_nil_of_le (by omega), nil_append]
  · rename_i hoffset
    split at hitems
    · cases hitems
    · rename_i existing hexisting
      split at hitems
      · cases hitems
      · cases hitems
        obtain ⟨kept, hkept, hpiece⟩ := h.pages (a.count / pageSize) (by omega)
        rw [hexisting] at hkept
        cases hkept
        have hmin : min pageSize (archive.length - a.count / pageSize * pageSize) =
            a.count - a.count / pageSize * pageSize := by
          omega
        rw [hmin, take_of_length_le (l := archive.drop _)] at hpiece
        · rw [hpiece]
        · rw [length_drop]
          omega

/-- **A run of the archive**, however far it gets. -/
theorem ReplaySound.run (h : ReplaySound p c) (writes : Nat) :
    ReplaySound p (archiveRun c writes) := by
  obtain ⟨archive, harchive⟩ := h.archived
  unfold archiveRun
  split
  · exact h
  rename_i a ha
  split
  · exact h
  rename_i items hitems
  dsimp only
  unfold archiverOf at ha
  split at ha
  · cases ha
  dsimp only at ha
  split at ha
  · cases ha
  rename_i hlong hcut
  obtain ⟨hcutLe, hcutEnd⟩ :=
    cutBefore_spec c.row.messages (c.row.messages.length - inlineKeep)
  generalize cutBefore c.row.messages (c.row.messages.length - inlineKeep) = cut
    at ha hcut hcutLe hcutEnd
  cases ha
  have hcount := harchive.count
  have hmoved : (archivedForm (c.row.messages.take cut)).length = cut := by
    rw [length_archivedForm, length_take]
    omega
  obtain rfl := loadPage_drop harchive rfl hitems
  dsimp only
  split
  · exact ⟨⟨archive, hcount, harchive.pages.writeFrom, harchive.tags, harchive.copies⟩, h.ids,
      h.docs⟩
  rename_i hall
  have hrecord : recordArchive c.row
      { count := c.row.count
        ids := (c.row.messages.take cut).map Message.id
        moved := archivedForm (c.row.messages.take cut)
        oldestAt := c.row.oldestAt.or (c.row.messages.head?.map Message.createdAt) } =
      ⟨c.row.messages.drop cut, c.row.count + cut,
        c.row.oldestAt.or (c.row.messages.head?.map Message.createdAt)⟩ := by
    unfold recordArchive
    dsimp only
    rw [hmoved, if_neg]
    rintro (hne | hne)
    · exact hne rfl
    · exact hne rfl
  rw [hrecord]
  refine ⟨⟨archive ++ archivedForm (c.row.messages.take cut), ?_, ?_, ?_, ?_⟩, h.ids, h.docs⟩
  · rw [length_append, hmoved, hcount]
  · refine harchive.pages.append ?_ ?_
    · rw [hcount]
      exact Nat.div_mul_le_self _ _
    · rw [length_drop] at hall
      rw [Nat.add_mul]
      omega
  · dsimp only
    rw [map_append, map_append, tags_archivedForm, append_assoc, ← map_append,
      take_append_drop, ← map_append]
    exact harchive.tags
  · intro e he
    have hC := isCopy_keptShort p e
    rcases harchive.copies e he with hold | hrow
    · exact .inl hold.append_right
    · rw [← take_append_drop cut c.row.messages] at hrow
      rcases hrow.cut hC hcutEnd with hfirst | hrest
      · exact .inl (hfirst.archivedForm hC).append_left
      · exact .inr hrest

/-- **One step.** -/
theorem ReplaySound.step (h : ReplaySound p c) {move : SaveMove} (hkeeps : KeepsQuestion p c move)
    (hstep : replayStep enc p c move = some c') : ReplaySound p c' := by
  cases move with
  | save e =>
    dsimp only [replayStep] at hstep
    split at hstep
    · rename_i hnew
      cases hstep
      exact h.save (nodup_tags h.ids hnew) hkeeps
    · cases hstep
  | archive writes =>
    cases hstep
    exact h.run writes

theorem ReplaySound.of_start (h : (replayMachine enc p).start c) : ReplaySound p c := by
  obtain ⟨hcount, hfirst, hsaved, hids⟩ := h
  have htags : c.tags = c.row.messages.map Message.tag := by
    unfold Conversation.tags
    rw [hsaved, hfirst, flatMap_nil, append_nil]
  refine ⟨⟨[], hcount.symm, Pages.holds_nil, htags.symm, ?_⟩, ?_, ?_⟩
  · intro e he
    rw [hsaved] at he
    cases he
  · rw [htags, map_map, ← hfirst]
    exact hids
  · intro e he
    rw [hsaved] at he
    cases he

theorem replaySound_of_reaches (h : (replayMachine enc p).Reaches (KeepsQuestion p) c) :
    ReplaySound p c :=
  Machine.invariant (I := ReplaySound p) (fun _ hstart => .of_start hstart)
    (fun _ _ _ hI hP ht => hI.step hP ht) h

end Steps

section Reads

variable {p : Presentations} {c : Conversation} {archive : List Message}
  {start stop : Nat} {messageId : Text}

variable (h : ArchivedSound p c archive)

include h

/-- **A slice is a slice of the transcript.** -/
theorem ArchivedSound.slice :
    c.slice start stop = ((archive ++ c.row.messages).take stop).drop start := by
  have hcount := h.count
  unfold Conversation.slice
  rw [take_append, drop_append, length_take, hcount]
  congr 1
  · by_cases hstart : start < c.row.count
    · rw [if_pos hstart, ← hcount, h.pages.slice pageSize_pos,
        ← take_eq_take_min]
    · rw [if_neg hstart, drop_eq_nil_of_le]
      rw [length_take]
      omega
  · by_cases hstop : stop ≤ c.row.count
    · rw [Nat.sub_eq_zero_of_le hstop, take_zero, drop_nil, drop_nil]
    · rw [Nat.min_eq_right (by omega)]

theorem ArchivedSound.total : c.total = (archive ++ c.row.messages).length := by
  unfold Conversation.total
  rw [length_append, h.count]

theorem ArchivedSound.get :
    c.get p = (hydrate c.docs (archive ++ c.row.messages)).map (decodedMessage p) := by
  unfold Conversation.get
  rw [h.slice, h.total, take_length, drop_zero]

theorem ArchivedSound.page {number : Nat} (hnumber : number * pageSize < c.row.count) :
    ((c.pages number).getD []).take (min pageSize (c.row.count - number * pageSize)) =
      (archive.drop (number * pageSize)).take pageSize := by
  obtain ⟨items, hitems, hpiece⟩ := h.pages number (h.count ▸ hnumber)
  rw [hitems, Option.getD_some, ← h.count]
  exact hpiece

theorem ArchivedSound.findArchived : (∀ index, c.findArchived messageId = some index →
      ∃ m, archive[index]? = some m ∧ m.id = messageId) ∧
    (c.findArchived messageId = none → ∀ m ∈ archive, m.id ≠ messageId) := by
  have hcount := h.count
  unfold Conversation.findArchived
  by_cases hzero : c.row.count = 0
  · rw [if_pos hzero]
    refine ⟨?_, ?_⟩
    · intro index hnone
      cases hnone
    intro _ m hm
    rw [hzero] at hcount
    rw [eq_nil_of_length_eq_zero hcount] at hm
    cases hm
  rw [if_neg hzero]
  constructor
  · intro index hindex
    obtain ⟨number, hnumber, hfound⟩ := exists_of_findSome?_eq_some hindex
    rw [mem_reverse, mem_range] at hnumber
    have hinside : number * pageSize < c.row.count := by
      have hmul : number * pageSize ≤ (c.row.count - 1) / pageSize * pageSize :=
        Nat.mul_le_mul_right _ (by omega)
      have hle := Nat.div_mul_le_self (c.row.count - 1) pageSize
      omega
    rw [h.page hinside] at hfound
    obtain ⟨offset, hoffset, rfl⟩ := Option.map_eq_some_iff.mp hfound
    rw [findIdx?_eq_some_iff_getElem] at hoffset
    obtain ⟨hlt, hid, -⟩ := hoffset
    refine ⟨_, ?_, of_decide_eq_true hid⟩
    rw [← List.getElem?_eq_getElem hlt, List.getElem?_take, List.getElem?_drop, if_pos]
    rw [length_take] at hlt
    omega
  · intro hnone m hm heq
    obtain ⟨index, hindex, rfl⟩ := mem_iff_getElem.mp hm
    have hpos := pageSize_pos
    have hnumber : index / pageSize ∈ (List.range ((c.row.count - 1) / pageSize + 1)).reverse := by
      rw [mem_reverse, mem_range]
      exact Nat.lt_succ_of_le (Nat.div_le_div_right (by omega))
    have hpage := findSome?_eq_none_iff.mp hnone _ hnumber
    have hle : index / pageSize * pageSize ≤ index := Nat.div_mul_le_self _ _
    have hlast : index < index / pageSize * pageSize + pageSize := Nat.lt_div_mul_add hpos
    rw [h.page (by omega), Option.map_eq_none_iff, findIdx?_eq_none_iff] at hpage
    refine Bool.false_ne_true ((hpage archive[index] ?_).symm.trans (decide_eq_true heq))
    refine mem_of_getElem? (i := index - index / pageSize * pageSize) ?_
    rw [List.getElem?_take, if_pos (by omega), List.getElem?_drop,
      Nat.add_sub_cancel' hle, List.getElem?_eq_getElem hindex]

/-- **A message is found** where it stands. -/
theorem ArchivedSound.position : (∀ index, c.position messageId = some index →
      ∃ m, (archive ++ c.row.messages)[index]? = some m ∧ m.id = messageId) ∧
    (c.position messageId = none → ∀ m ∈ archive ++ c.row.messages, m.id ≠ messageId) := by
  unfold Conversation.position
  cases hrow : c.row.messages.findIdx? fun m => m.id = messageId with
  | some offset =>
    constructor
    swap
    · intro hnone
      cases hnone
    intro index hindex
    cases hindex
    rw [findIdx?_eq_some_iff_getElem] at hrow
    obtain ⟨hlt, hid, -⟩ := hrow
    refine ⟨_, ?_, of_decide_eq_true hid⟩
    rw [← h.count, List.getElem?_append_right (Nat.le_add_right _ _), Nat.add_sub_cancel_left,
      List.getElem?_eq_getElem hlt]
  | none =>
    dsimp only
    constructor
    · intro index hindex
      obtain ⟨m, hm, hid⟩ := h.findArchived.1 index hindex
      refine ⟨m, ?_, hid⟩
      rw [List.getElem?_append_left (List.getElem?_eq_some_iff.mp hm).1, hm]
    · intro hnone m hm heq
      rcases mem_append.mp hm with harchive | hrest
      · exact h.findArchived.2 hnone m harchive heq
      · have hno := findIdx?_eq_none_iff.mp hrow m hrest
        rw [decide_eq_true heq] at hno
        cases hno

end Reads

/-! ### What is read -/

structure ReadsAsSaved (p : Presentations) (docs : ExchangeDocs) (e : Exchange)
    (question answer : Message) : Prop where
  userTag : question.tag = (e.userMessageId, .user)
  assistantTag : answer.tag = (e.assistantMessageId, .assistant)
  userContent : question.content = e.userContent
  assistantContent : answer.content = e.assistantContent
  answerText : ∀ response, answer.response = some response →
    response.get? "answer" = some (.str (String.ofList e.assistantContent))
  response : ∃ record, loadExchange docs e.assistantMessageId = some record ∧
    responseView answer.response =
      responseView (decodeResponse p record.response record.assistantContent)

def IsPageBefore (transcript : List Message) (before : Option Text) (limit : Nat)
    (page : List Message × Nat) : Prop :=
  ∃ stop,
    (match before with
      | none => stop = transcript.length
      | some messageId => transcript[stop]?.map Message.id = some messageId) ∧
    page.2 = stop - max 1 (min limit maxMessagePage) ∧
    page.1 = (transcript.take stop).drop page.2

section Replay

variable {enc : Encoding} {p : Presentations} {c : Conversation} {archive : List Message}
  {e : Exchange} {question answer : Message}

theorem tag_decodedMessage (m : Message) : (decodedMessage p m).tag = m.tag := by
  unfold decodedMessage
  split <;> rfl

theorem ArchivedSound.tags_get (h : ArchivedSound p c archive) :
    (c.get p).map Message.tag = c.tags := by
  rw [h.get, map_map, ← h.tags, ← tags_hydrate c.docs]
  exact map_congr_left fun m _ => tag_decodedMessage m

theorem decodedMessage_content (m : Message) : (decodedMessage p m).content = m.content := by
  unfold decodedMessage
  split <;> rfl

variable {m : Message}

theorem decodedMessage_response (h : m.role = .assistant) :
    (decodedMessage p m).response = decodeResponse p m.response m.content := by
  unfold decodedMessage
  rw [h]

theorem get?_answer_decoded {response : Stored} (h : m.role = .assistant)
    (hresponse : (decodedMessage p m).response = some response) :
    response.get? "answer" = some (.str (String.ofList m.content)) := by
  rw [decodedMessage_response h] at hresponse
  unfold decodeResponse at hresponse
  split at hresponse
  · cases hresponse
  · split at hresponse
    · cases hresponse
    · cases hresponse
      exact Dict.get?_set_self _ _ _

theorem decoded_readsAsSaved {docs : ExchangeDocs}
    (hdoc : docs e.assistantMessageId = some (e.record p))
    (huser : question.tag = (e.userMessageId, .user))
    (hassistant : answer.tag = (e.assistantMessageId, .assistant))
    (hquestion : question.content = e.userContent) (hanswer : answer.content = e.assistantContent)
    (hresponse : ∀ content, responseView (decodeResponse p answer.response content) =
      responseView (decodeResponse p (e.record p).response content)) :
    ReadsAsSaved p docs e (decodedMessage p question) (decodedMessage p answer) := by
  have hrole : answer.role = .assistant := (Prod.mk.inj hassistant).2
  refine ⟨(tag_decodedMessage question).trans huser, (tag_decodedMessage answer).trans hassistant,
    (decodedMessage_content question).trans hquestion,
    (decodedMessage_content answer).trans hanswer, ?_, e.record p, ?_, ?_⟩
  · intro response hdecoded
    rw [← hanswer]
    exact get?_answer_decoded hrole hdecoded
  · unfold loadExchange
    rw [hdoc]
    exact Option.filter_some_pos (decide_eq_true rfl)
  · rw [decodedMessage_response hrole, hanswer]
    exact hresponse e.assistantContent

/-- **A saved exchange is read as it was saved** in the whole transcript. -/
theorem ReplaySound.reads (h : ReplaySound p c) (harchive : ArchivedSound p c archive)
    (he : e ∈ c.saved) : ∃ before question answer after,
      c.get p = before ++ question :: answer :: after ∧
        ReadsAsSaved p c.docs e question answer := by
  have hcontains : Contains (IsCopy p e) (archive ++ c.row.messages) := by
    rcases harchive.copies e he with hold | hrow
    · exact hold.append_right
    · exact hrow.append_left
  obtain ⟨before, question, answer, after, heq, hcopy⟩ := hcontains
  obtain ⟨question', answer', rest, hrest, huser, hassistant, hquestion, hanswer, hresponse⟩ :=
    hydrate_copy c.docs after hcopy (h.docs e he)
  refine ⟨((hydrate c.docs (archive ++ c.row.messages)).take before.length).map (decodedMessage p),
    _, _, rest.map (decodedMessage p), ?_, decoded_readsAsSaved (h.docs e he) huser hassistant
      hquestion hanswer hresponse⟩
  have hdrop : (hydrate c.docs (archive ++ c.row.messages)).drop before.length =
      question' :: answer' :: rest := by
    rw [← hydrate_drop, heq, drop_left, hrest]
  rw [harchive.get, ← map_cons, ← map_cons, ← map_append, ← hdrop,
    take_append_drop]

theorem ReplaySound.getExchange (h : ReplaySound p c) (harchive : ArchivedSound p c archive)
    {before after : List Message} (hget : c.get p = before ++ question :: answer :: after)
    (hreads : ReadsAsSaved p c.docs e question answer) :
    c.getExchange p e.assistantMessageId = [question, answer] := by
  have htags := harchive.tags_get
  have hids : (archive ++ c.row.messages).map Message.id = (c.get p).map Message.id := by
    have hfst := congrArg (List.map Prod.fst) (htags.trans harchive.tags.symm)
    rw [map_map, map_map] at hfst
    exact hfst.symm
  have hnodup : ((c.get p).map Message.id).Nodup := by
    have hnodup := h.ids
    rw [← htags, map_map] at hnodup
    exact hnodup
  have hanswerId : answer.id = e.assistantMessageId := (Prod.mk.inj hreads.assistantTag).1
  have hat : ((c.get p).map Message.id)[before.length + 1]? = some e.assistantMessageId := by
    rw [hget, List.getElem?_map, List.getElem?_append_right (by omega), Nat.add_sub_cancel_left,
      ← hanswerId]
    rfl
  have hlength : before.length + 1 < ((c.get p).map Message.id).length :=
    (List.getElem?_eq_some_iff.mp hat).1
  have hposition : c.position e.assistantMessageId = some (before.length + 1) := by
    cases hposition : c.position e.assistantMessageId with
    | none =>
      have hmem := mem_of_getElem? hat
      rw [← hids] at hmem
      obtain ⟨m, hm, hid⟩ := mem_map.mp hmem
      exact absurd hid (harchive.position.2 hposition m hm)
    | some index =>
      obtain ⟨m, hm, hid⟩ := harchive.position.1 index hposition
      have hindex : ((c.get p).map Message.id)[index]? = some e.assistantMessageId := by
        rw [← hids, List.getElem?_map, hm, Option.map_some, hid]
      rw [(List.getElem?_inj hlength hnodup).mp (hat.trans hindex.symm)]
  have hstop : before.length + 1 + 1 ≤ (archive ++ c.row.messages).length := by
    have hle := congrArg List.length hids
    rw [length_map] at hle
    omega
  have hwindow := hydrate_window c.docs (le_refl before.length) hstop
  rw [Nat.sub_self, drop_zero] at hwindow
  have htwo : ((hydrate c.docs (((archive ++ c.row.messages).take (min
      (archive ++ c.row.messages).length (before.length + 1 + 1 + 1))).drop before.length)).take
        (before.length + 1 + 1 - before.length)).map (decodedMessage p) = [question, answer] := by
    rw [hwindow, map_drop, map_take, ← harchive.get, hget, Nat.add_assoc,
      take_length_add_append, drop_left]
    rfl
  unfold Conversation.getExchange
  rw [hposition]
  dsimp only
  rw [harchive.slice, harchive.total, Nat.add_sub_cancel]
  rw [show before.length + 1 + 1 - before.length = 2 by omega] at htwo
  revert htwo
  rw [Nat.add_assoc before.length 1 2]
  generalize hydrate c.docs _ = window
  intro htwo
  obtain ⟨x, y, rest, rfl⟩ : ∃ x y rest, window = x :: y :: rest := by
    have hlen := congrArg List.length htwo
    rw [length_map, length_take] at hlen
    cases window with
    | nil => cases hlen
    | cons x window =>
      cases window with
      | nil => cases hlen
      | cons y rest => exact ⟨x, y, rest, rfl⟩
  rw [take_succ_cons, take_succ_cons, take_zero, map_cons, map_cons,
    map_nil, List.cons.injEq, List.cons.injEq] at htwo
  obtain ⟨hx, hy, -⟩ := htwo
  have hxId : x.id = question.id := by
    rw [← hx]
    exact (Prod.mk.inj (tag_decodedMessage x)).1.symm
  have hyId : y.id = e.assistantMessageId := by
    rw [← hanswerId, ← hy]
    exact (Prod.mk.inj (tag_decodedMessage y)).1.symm
  have hne : question.id ≠ answer.id := by
    rw [hget, map_append, map_cons, map_cons] at hnodup
    have hpair := (nodup_append.mp hnodup).2.1
    intro heq
    exact (nodup_cons.mp hpair).1 (heq ▸ mem_cons_self)
  have hfind : (x :: y :: rest).findIdx? (fun m => m.id = e.assistantMessageId) = some 1 := by
    rw [findIdx?_cons, if_neg, findIdx?_cons, if_pos]
    · rfl
    · exact decide_eq_true hyId
    · rw [decide_eq_true_eq, hxId, ← hanswerId]
      exact hne
  rw [hfind]
  dsimp only
  rw [take_succ_cons, take_succ_cons, take_zero, map_cons, map_cons,
    map_nil, hx, hy]

theorem ArchivedSound.messagesPage (h : ArchivedSound p c archive) (before : Option Text)
    (limit : Nat) :
    (∀ page, c.messagesPage p before limit = some page →
      IsPageBefore (c.get p) before limit page) ∧
    (c.messagesPage p before limit = none → ∃ messageId, before = some messageId ∧
      ∀ m ∈ c.get p, m.id ≠ messageId) := by
  have hids : (archive ++ c.row.messages).map Message.id = (c.get p).map Message.id := by
    have hfst := congrArg (List.map Prod.fst) (h.tags_get.trans h.tags.symm)
    rw [map_map, map_map] at hfst
    exact hfst.symm
  have hlength : (archive ++ c.row.messages).length = (c.get p).length := by
    have hlength := congrArg List.length hids
    rw [length_map, length_map] at hlength
    exact hlength
  -- a page that ends at some message
  have hpage : ∀ stop, stop ≤ (archive ++ c.row.messages).length →
      (((hydrate c.docs (c.slice (stop - max 1 (min limit maxMessagePage) - 1)
        (min c.total (stop + 1)))).drop (stop - max 1 (min limit maxMessagePage) -
          (stop - max 1 (min limit maxMessagePage) - 1))).take
            (stop - (stop - max 1 (min limit maxMessagePage)))).map (decodedMessage p) =
        ((c.get p).take stop).drop (stop - max 1 (min limit maxMessagePage)) := by
    intro stop hstop
    rw [h.slice, h.total, hydrate_window c.docs (Nat.sub_le _ _) hstop, map_drop,
      map_take, ← h.get]
  unfold Conversation.messagesPage
  cases before with
  | none =>
    constructor
    · intro page heq
      cases heq
      refine ⟨c.total, h.total.trans hlength, rfl, ?_⟩
      exact hpage c.total h.total.le
    · intro hnone
      cases hnone
  | some messageId =>
    dsimp only
    constructor
    · intro page heq
      obtain ⟨stop, hstop, rfl⟩ := Option.map_eq_some_iff.mp heq
      obtain ⟨m, hm, hid⟩ := h.position.1 stop hstop
      refine ⟨stop, ?_, rfl, ?_⟩
      · dsimp only
        rw [← List.getElem?_map, ← hids, List.getElem?_map, hm, Option.map_some, hid]
      · exact hpage stop (List.getElem?_eq_some_iff.mp hm).1.le
    · intro hnone
      refine ⟨messageId, rfl, ?_⟩
      intro m hm heq
      have hmem := mem_map_of_mem (f := Message.id) hm
      rw [← hids] at hmem
      obtain ⟨m', hm', hid⟩ := mem_map.mp hmem
      exact h.position.2 (Option.map_eq_none_iff.mp hnone) m' hm' (hid.trans heq)

/-- **Saved answers replay**: in every run where no long question is saved before a short answer
whose copy is whole, the transcript is every message once in order, every saved exchange is read
from it and by `get_exchange` as it was saved, and every page is a part of it. -/
theorem saved_answers_replay (h : (replayMachine enc p).Reaches (KeepsQuestion p) c) :
    (c.get p).map Message.tag = c.tags ∧ (c.tags.map Prod.fst).Nodup ∧
      (∀ e ∈ c.saved, ∃ before question answer after,
        c.get p = before ++ question :: answer :: after ∧
          ReadsAsSaved p c.docs e question answer ∧
            c.getExchange p e.assistantMessageId = [question, answer]) ∧
      ∀ before limit,
        (∀ page, c.messagesPage p before limit = some page →
          IsPageBefore (c.get p) before limit page) ∧
        (c.messagesPage p before limit = none → ∃ messageId, before = some messageId ∧
          ∀ m ∈ c.get p, m.id ≠ messageId) := by
  have hsound := replaySound_of_reaches h
  obtain ⟨archive, harchive⟩ := hsound.archived
  refine ⟨harchive.tags_get, hsound.ids, ?_, harchive.messagesPage⟩
  intro e he
  obtain ⟨before, question, answer, after, hget, hreads⟩ := hsound.reads harchive he
  exact ⟨before, question, answer, after, hget, hreads,
    hsound.getExchange harchive hget hreads⟩

end Replay

/-! ### A long question with a short answer -/

def plainPresentations : Presentations where
  compact d := (d, false)
  table _ _ := none

def newConversation : Conversation where
  row := ⟨[], 0, none⟩

theorem newConversation_start :
    (replayMachine plainEncoding plainPresentations).start newConversation :=
  ⟨rfl, rfl, rfl, nodup_nil⟩

def longQuestion (answerChars : Nat) : Exchange where
  userMessageId := ['A']
  assistantMessageId := ['B']
  userContent := List.replicate 281 '?'
  assistantContent := List.replicate answerChars '!'

def smallExchange (n : Nat) : Exchange where
  userMessageId := [Char.ofNat (2 * n + 100)]
  assistantMessageId := [Char.ofNat (2 * n + 101)]
  userContent := ['?']
  assistantContent := ['!']

def archivedQuestion (answerChars : Nat) : List SaveMove :=
  .save (longQuestion answerChars) ::
    ((List.range 70).map fun n => .save (smallExchange n)) ++ [.archive 1]

def keepsQuestion : Conversation → SaveMove → Bool
  | _, .save e =>
    decide (reducedPreviewChars < e.assistantContent.length) ||
      decide (e.userContent.length ≤ reducedPreviewChars)
  | _, .archive _ => true

theorem keepsQuestion_sound {p : Presentations} {c : Conversation} {move : SaveMove}
    (h : keepsQuestion c move = true) : KeepsQuestion p c move := by
  cases move with
  | save e =>
    unfold keepsQuestion at h
    rw [Bool.or_eq_true, decide_eq_true_eq, decide_eq_true_eq] at h
    intro _ _ hshort
    exact h.resolve_left (Nat.not_lt.mpr hshort)
  | archive writes => trivial

set_option maxRecDepth 100000 in
/-- A long question before a long answer is restored from the archive. -/
theorem saved_answers_replay_of_archived : ∃ c : Conversation, c.row.count = 42 ∧
    ∀ e ∈ c.saved, ∃ before question answer after,
      c.get plainPresentations = before ++ question :: answer :: after ∧
        ReadsAsSaved plainPresentations c.docs e question answer ∧
          c.getExchange plainPresentations e.assistantMessageId = [question, answer] := by
  have hrun : ((replayMachine plainEncoding plainPresentations).runChecked
      keepsQuestion newConversation (archivedQuestion 281)).any
        (fun c => c.row.count == 42) = true := by
    decide +kernel
  obtain ⟨c, hc, hend⟩ :=
    Machine.reaches_of_runChecked (fun _ _ => keepsQuestion_sound) newConversation_start hrun
  exact ⟨c, beq_iff_eq.mp hend, (saved_answers_replay hc).2.2.1⟩

set_option maxRecDepth 100000 in
/-- Before a short answer the question is archived as a preview, and nothing restores it. -/
theorem archived_question_shortened : ∃ c : Conversation,
    (replayMachine plainEncoding plainPresentations).Reaches Machine.anyStep c ∧
      ∃ e ∈ c.saved, ∃ m ∈ c.get plainPresentations,
        m.id = e.userMessageId ∧ m.content ≠ e.userContent := by
  have hrun : ((replayMachine plainEncoding plainPresentations).run newConversation
      (archivedQuestion 1)).any
        (fun c => c.saved.any fun e => (c.get plainPresentations).any fun m =>
          m.id == e.userMessageId && m.content != e.userContent) = true := by
    decide +kernel
  obtain ⟨c, -, hc, hend⟩ := Machine.reaches_of_run _ _ _ _ newConversation_start hrun
  obtain ⟨e, he, hmessages⟩ := any_eq_true.mp hend
  obtain ⟨m, hm, hdiffers⟩ := any_eq_true.mp hmessages
  rw [Bool.and_eq_true, beq_iff_eq, bne_iff_ne] at hdiffers
  exact ⟨c, hc, e, he, m, hm, hdiffers.1, hdiffers.2⟩

end AgenticKibana.Conversations
