import AgenticKibana.Conversations.Answers

/-!
# Every worker gives the one answer

The partition and its workers together: a worker that saves has written the document of its exchange
under new ids, and blanks it only where the exchange was not appended.
-/

namespace AgenticKibana.Conversations

open AgenticKibana.Library Option

structure Apart (e e' : Exchange) : Prop where
  users : e.userMessageId ≠ e'.userMessageId
  userAnswer : e.userMessageId ≠ e'.assistantMessageId
  answerUser : e.assistantMessageId ≠ e'.userMessageId
  answers : e.assistantMessageId ≠ e'.assistantMessageId

section Sound

variable {enc : Encoding} {p : Presentations} {threads : Threads}

def MayBlank (phase : CasCell.Phase (requests enc p threads)) : Prop :=
  (∃ op, phase.operation = some op) ∨ blanks phase = true

structure ChatSound (w : ChatStore enc p threads) : Prop where
  snapshot : CasCell.Snapshot w.cell
  partition : PartitionSound p w.cell.doc
  known : ∀ id ∈ w.cell.doc.ids, id ∈ w.used
  drafted : ∀ c op e, (w.cell.phase c).operation = some op → op.exchange = some e →
    w.drafts c = some e
  drawn : ∀ c e, w.drafts c = some e → e.userMessageId ≠ e.assistantMessageId ∧
    e.userMessageId ∈ w.used ∧ e.assistantMessageId ∈ w.used
  apart : ∀ c c' e e', w.drafts c = some e → w.drafts c' = some e' → c ≠ c' → Apart e e'
  unsaved : ∀ c e, w.drafts c = some e → MayBlank (w.cell.phase c) →
    w.docs e.assistantMessageId = some (e.record p) ∧ e.userMessageId ∉ w.cell.doc.ids ∧
      e.assistantMessageId ∉ w.cell.doc.ids
  documents : ∀ e ∈ w.cell.doc.appended, w.docs e.assistantMessageId = some (e.record p) ∨
    e.assistantMessageId ∈ w.cell.doc.evicted
  same : ∀ e ∈ w.cell.doc.appended, ∀ c e', w.drafts c = some e' →
    e'.assistantMessageId = e.assistantMessageId → e' = e
  replies : ∀ c answer appended, w.cell.phase c = .returned (.completed answer appended) →
    ∃ e, w.cell.doc.appended = [e] ∧ AnswerCopy p e answer

variable {w w' : ChatStore enc p threads}

theorem chatSound_start (h : (chatMachine enc p threads).start w) : ChatSound w := by
  obtain ⟨hcell, hused, hdrafts⟩ := h
  have hno : ∀ {c : Nat} {e : Exchange}, w.drafts c ≠ some e := by
    intro c e heq
    rw [hdrafts c] at heq
    cases heq
  have hdoc : w.cell.doc = .of threads := hcell.1
  constructor
  · exact CasCell.snapshot_start hcell
  · rw [hdoc]
    exact partitionSound_of threads
  · intro id hid
    rw [hused, ← hdoc]
    exact hid
  · intro c op e hop
    rw [hcell.2.2 c] at hop
    cases hop
  · intro c e he
    exact absurd he hno
  · intro c c' e e' he
    exact absurd he hno
  · intro c e he
    exact absurd he hno
  · intro e he
    rw [hdoc] at he
    cases he
  · intro e he
    rw [hdoc] at he
    cases he
  · intro c answer appended hphase
    rw [hcell.2.2 c] at hphase
    cases hphase

section

variable (h : ChatSound w)

include h

theorem ChatSound.beside (hcell : w'.cell = w.cell) (hdocs : w'.docs = w.docs)
    (hdrafts : w'.drafts = w.drafts) (hused : w'.used = w.used) : ChatSound w' := by
  obtain ⟨cell, docs, drafts, used, heartbeat, renewals⟩ := w'
  dsimp only at hcell hdocs hdrafts hused
  subst hcell hdocs hdrafts hused
  exact ⟨h.snapshot, h.partition, h.known, h.drafted, h.drawn, h.apart, h.unsaved, h.documents,
    h.same, h.replies⟩

variable {e : Exchange} {phase : CasCell.Phase (requests enc p threads)} {c : Nat} {op : RequestOp}

theorem ChatSound.answerId_mem (he : e ∈ w.cell.doc.appended) :
    e.assistantMessageId ∈ w.cell.doc.ids :=
  h.partition.appended e he

omit h in
theorem operation_of_blanks (h : blanks phase = true) : phase.operation = none := by
  cases phase with
  | calling op left | proposed op env left val next base => cases h
  | _ => rfl

theorem ChatSound.blank (hdraft : w.drafts c = some e) (hblanks : blanks (w.cell.phase c) = true) :
    ChatSound { w with
      docs := Function.update w.docs e.assistantMessageId none
      drafts := Function.update w.drafts c none } := by
  have hunsaved := h.unsaved c e hdraft (.inr hblanks)
  have hold : ∀ {c' : Nat} {e' : Exchange}, Function.update w.drafts c none c' = some e' →
      c' ≠ c ∧ w.drafts c' = some e' := by
    intro c' e' he'
    by_cases hc : c' = c
    · subst hc
      rw [Function.update_self] at he'
      cases he'
    · rw [Function.update_of_ne hc] at he'
      exact ⟨hc, he'⟩
  refine ⟨h.snapshot, h.partition, h.known, ?_, ?_, ?_, ?_, ?_, ?_, h.replies⟩
  · intro c' op e' hop he'
    have hne : c' ≠ c := by
      rintro rfl
      rw [operation_of_blanks hblanks] at hop
      cases hop
    dsimp only
    rw [Function.update_of_ne hne]
    exact h.drafted c' op e' hop he'
  · intro c' e' he'
    exact h.drawn c' e' (hold he').2
  · intro c1 c2 e1 e2 he1 he2
    exact h.apart c1 c2 e1 e2 (hold he1).2 (hold he2).2
  · intro c' e' he' hmay
    obtain ⟨hne, hdraft'⟩ := hold he'
    dsimp only
    rw [Function.update_of_ne (h.apart c' c e' e hdraft' hdraft hne).answers]
    exact h.unsaved c' e' hdraft' hmay
  · intro e' he'
    dsimp only
    rw [Function.update_of_ne]
    · exact h.documents e' he'
    · intro heq
      exact hunsaved.2.2 (heq ▸ h.answerId_mem he')
  · intro e' he' c' e'' he''
    exact h.same e' he' c' e'' (hold he'').2

theorem ChatSound.blankEvicted {id : Text} (hid : id ∈ w.cell.doc.evicted) :
    ChatSound { w with docs := Function.update w.docs id none } := by
  refine ⟨h.snapshot, h.partition, h.known, h.drafted, h.drawn, h.apart, ?_, ?_, h.same,
    h.replies⟩
  · intro c e he hmay
    have hunsaved := h.unsaved c e he hmay
    dsimp only
    rw [Function.update_of_ne]
    · exact hunsaved
    · intro heq
      exact hunsaved.2.2 (heq ▸ h.partition.evicted id hid)
  · intro e he
    dsimp only
    by_cases heq : e.assistantMessageId = id
    · exact .inr (heq ▸ hid)
    · rw [Function.update_of_ne heq]
      exact h.documents e he

omit h in
theorem setPhase_phase (s : CasCell.State (requests enc p threads)) (c c' : Nat)
    (phase : CasCell.Phase (requests enc p threads)) :
    (s.setPhase c phase).phase c' = if c' = c then phase else s.phase c' := by
  by_cases hc : c' = c
  · rw [if_pos hc, hc, CasCell.State.setPhase_phase_self]
  · rw [if_neg hc, CasCell.State.setPhase_phase_of_ne s phase hc]

theorem ChatSound.goesOn (hsnapshot : CasCell.Snapshot (w.cell.setPhase c phase))
    (hop : ∀ op, phase.operation = some op → (w.cell.phase c).operation = some op)
    (hmay : MayBlank phase → MayBlank (w.cell.phase c))
    (hreply : ∀ answer appended, phase ≠ .returned (.completed answer appended)) :
    ChatSound { w with cell := w.cell.setPhase c phase } := by
  refine ⟨hsnapshot, h.partition, h.known, ?_, h.drawn, h.apart, ?_, h.documents, h.same, ?_⟩
  · intro c' op e hphase he
    dsimp only at hphase
    rw [setPhase_phase] at hphase
    split at hphase
    · rename_i hc
      subst hc
      exact h.drafted c' op e (hop op hphase) he
    · exact h.drafted c' op e hphase he
  · intro c' e he hphase
    dsimp only at hphase
    rw [setPhase_phase] at hphase
    split at hphase
    · rename_i hc
      subst hc
      exact h.unsaved c' e he (hmay hphase)
    · exact h.unsaved c' e he hphase
  · intro c' answer appended hphase
    dsimp only at hphase
    rw [setPhase_phase] at hphase
    split at hphase
    · exact absurd hphase (hreply answer appended)
    · exact h.replies c' answer appended hphase

theorem ChatSound.newIds (hop : (w.cell.phase c).operation = some op) : NewIds op w.cell.doc := by
  intro e he
  have hdraft := h.drafted c op e hop he
  exact ⟨(h.drawn c e hdraft).1, (h.unsaved c e hdraft (.inl ⟨op, hop⟩)).2⟩

/-- **A write.** -/
theorem ChatSound.commit {val : Outcome} {next : Partition}
    (hop : (w.cell.phase c).operation = some op)
    (hchanged : Changed enc p w.cell.doc op val next)
    (hphase : phase = .returned val ∨ phase = .raised .backend)
    (hsnapshot : CasCell.Snapshot
      { w.cell.setPhase c phase with doc := next, rev := w.cell.rev + 1 }) :
    ChatSound { w with
      cell := { w.cell.setPhase c phase with doc := next, rev := w.cell.rev + 1 } } := by
  have hnew := h.newIds hop
  obtain ⟨hids, happended, hevicted⟩ := hchanged.grows
  have hoperation : phase.operation = none := by
    rcases hphase with rfl | rfl <;> rfl
  refine ⟨hsnapshot, h.partition.changed hchanged hnew, ?_, ?_, h.drawn, h.apart, ?_, ?_, ?_, ?_⟩
  · intro id hid
    rcases hids with hsame | ⟨e, he, heq⟩
    · exact h.known id (hsame ▸ hid)
    · dsimp only at hid
      rw [heq, List.mem_append, List.mem_cons, List.mem_singleton] at hid
      have hdrawn := h.drawn c e (h.drafted c op e hop he)
      rcases hid with hold | rfl | rfl
      · exact h.known id hold
      · exact hdrawn.2.1
      · exact hdrawn.2.2
  · intro c' op' e hop' he
    dsimp only at hop'
    rw [setPhase_phase] at hop'
    split at hop'
    · rw [hoperation] at hop'
      cases hop'
    · exact h.drafted c' op' e hop' he
  · intro c' e' he' hmay
    dsimp only at hmay ⊢
    rw [setPhase_phase] at hmay
    split at hmay
    · rename_i hc
      subst hc
      have hunsaved := h.unsaved c' e' he' (.inl ⟨op, hop⟩)
      -- a worker that may blank its document has not changed the partition
      have hsame : next = w.cell.doc := by
        rcases hmay with ⟨op', hop'⟩ | hblanks
        · rw [hoperation] at hop'
          cases hop'
        · rcases hphase with rfl | rfl
          · cases hchanged with
            | replayed | unsaved => rfl
            | _ => cases hblanks
          · cases hblanks
      rw [hsame]
      exact hunsaved
    · rename_i hc
      have hunsaved := h.unsaved c' e' he' hmay
      refine ⟨hunsaved.1, ?_⟩
      rcases hids with hsame | ⟨e, he, heq⟩
      · rw [hsame]
        exact hunsaved.2
      · have hapart := h.apart c' c e' e he' (h.drafted c op e hop he) hc
        rw [heq]
        simp only [List.mem_append, List.mem_cons, List.not_mem_nil, or_false, not_or]
        exact ⟨⟨hunsaved.2.1, hapart.users, hapart.userAnswer⟩,
          hunsaved.2.2, hapart.answerUser, hapart.answers⟩
  · intro e he
    dsimp only at he ⊢
    rcases happended with hsame | ⟨e', he', -, heq⟩
    · rw [hsame] at he
      exact (h.documents e he).imp_right (hevicted _)
    · rw [heq, List.mem_append, List.mem_singleton] at he
      rcases he with hold | rfl
      · exact (h.documents e hold).imp_right (hevicted _)
      · exact .inl (h.unsaved c e (h.drafted c op e hop he') (.inl ⟨op, hop⟩)).1
  · intro e he c' e' he' hid
    dsimp only at he
    rcases happended with hsame | ⟨e'', he'', -, heq⟩
    · rw [hsame] at he
      exact h.same e he c' e' he' hid
    · rw [heq, List.mem_append, List.mem_singleton] at he
      rcases he with hold | rfl
      · exact h.same e hold c' e' he' hid
      · have hdraft := h.drafted c op e hop he''
        by_cases hc : c' = c
        · subst hc
          rw [hdraft] at he'
          cases he'
          rfl
        · exact absurd hid (h.apart c' c e' e he' hdraft hc).answers
  · intro c' answer appended hphase'
    dsimp only at hphase' ⊢
    rw [setPhase_phase] at hphase'
    split at hphase'
    · rcases hphase with rfl | rfl
      · cases hphase'
        exact h.partition.returned hchanged hnew
      · cases hphase'
    · obtain ⟨e, he, hcopy⟩ := h.replies c' answer appended hphase'
      refine ⟨e, ?_, hcopy⟩
      rcases happended with hsame | ⟨e', -, hopen, -⟩
      · rw [hsame, he]
      · rw [h.partition.isOpen hopen] at he
        cases he

variable {cell : CasCell.State (requests enc p threads)}

theorem ChatSound.cellStep {event : CasCell.Event (requests enc p threads)}
    (hcall : ∀ c op, event ≠ .call c op) (hstep : CasCell.step w.cell event = some cell) :
    ChatSound { w with cell := cell } := by
  have hsnapshot := CasCell.snapshot_step h.snapshot hstep
  cases CasCell.stepped_of_step hstep with
  | called hsettled => exact absurd rfl (hcall _ _)
  | refused hphase hadm hchange =>
    refine h.goesOn hsnapshot ?_ ?_ ?_
    · intro op hop
      cases hop
    · intro _
      exact .inl ⟨_, by rw [hphase]; rfl⟩
    · intro answer appended heq
      cases heq
  | proposed hphase | lostRace hphase =>
    refine h.goesOn hsnapshot ?_ ?_ ?_
    · intro op hop
      cases hop
      rw [hphase]
      rfl
    · intro _
      exact .inl ⟨_, by rw [hphase]; rfl⟩
    · intro answer appended heq
      cases heq
  | @written c op attempt left val next hphase =>
    have hchange := (CasCell.Commits.put hphase).change_eq h.snapshot
    exact h.commit (by rw [hphase]; rfl) (changed_of_requestChange hchange.2) (.inl rfl) hsnapshot
  | @writtenUnseen c op attempt left val next hphase =>
    have hchange := (CasCell.Commits.putLost hphase).change_eq h.snapshot
    exact h.commit (by rw [hphase]; rfl) (changed_of_requestChange hchange.2) (.inr rfl) hsnapshot
  | @asked c q _ | @looked c q _ | @replied c q _ _ => exact q.elim
  | _ =>
    -- a worker stops, or raises without a change of its own
    refine h.goesOn hsnapshot ?_ ?_ ?_
    · intro op hop
      cases hop
    · rintro (⟨op, hop⟩ | hblanks)
      · cases hop
      · cases hblanks
    · intro answer appended heq
      cases heq

omit h in
theorem called_cell (h : CasCell.step w.cell (.call c op) = some cell) :
    cell = w.cell.setPhase c (.calling op casRetries) := by
  simp only [CasCell.step, ite_none_right_eq_some, Option.some.injEq] at h
  exact h.2.symm

theorem ChatSound.beginQuiet (hop : op.exchange = none)
    (hstep : CasCell.step w.cell (.call c op) = some cell) :
    ChatSound { w with cell := cell, drafts := Function.update w.drafts c none } := by
  have hsnapshot := CasCell.snapshot_step h.snapshot hstep
  obtain rfl := called_cell hstep
  have hold : ∀ {c' : Nat} {e : Exchange}, Function.update w.drafts c none c' = some e →
      c' ≠ c ∧ w.drafts c' = some e := by
    intro c' e he
    by_cases hc : c' = c
    · subst hc
      rw [Function.update_self] at he
      cases he
    · rw [Function.update_of_ne hc] at he
      exact ⟨hc, he⟩
  refine ⟨hsnapshot, h.partition, h.known, ?_, ?_, ?_, ?_, h.documents, ?_, ?_⟩
  · intro c' op' e hop' he
    dsimp only at hop' ⊢
    rw [setPhase_phase] at hop'
    split at hop'
    · cases hop'
      rw [hop] at he
      cases he
    · rename_i hc
      rw [Function.update_of_ne hc]
      exact h.drafted c' op' e hop' he
  · intro c' e he
    exact h.drawn c' e (hold he).2
  · intro c1 c2 e1 e2 he1 he2
    exact h.apart c1 c2 e1 e2 (hold he1).2 (hold he2).2
  · intro c' e he hmay
    obtain ⟨hc, hdraft⟩ := hold he
    dsimp only at hmay
    rw [setPhase_phase, if_neg hc] at hmay
    exact h.unsaved c' e hdraft hmay
  · intro e he c' e' he'
    exact h.same e he c' e' (hold he').2
  · intro c' answer appended hphase
    dsimp only at hphase
    rw [setPhase_phase] at hphase
    split at hphase
    · cases hphase
    · exact h.replies c' answer appended hphase

theorem ChatSound.beginSave (hop : op.exchange = some e)
    (hne : e.userMessageId ≠ e.assistantMessageId) (huser : e.userMessageId ∉ w.used)
    (hanswer : e.assistantMessageId ∉ w.used)
    (hstep : CasCell.step w.cell (.call c op) = some cell) : ChatSound { w with
      cell := cell
      docs := Function.update w.docs e.assistantMessageId (some (e.record p))
      drafts := Function.update w.drafts c (some e)
      used := w.used ++ [e.userMessageId, e.assistantMessageId] } := by
  have hsnapshot := CasCell.snapshot_step h.snapshot hstep
  obtain rfl := called_cell hstep
  have hold : ∀ {c' : Nat} {e' : Exchange}, Function.update w.drafts c (some e) c' = some e' →
      (c' = c ∧ e' = e) ∨ (c' ≠ c ∧ w.drafts c' = some e') := by
    intro c' e' he'
    by_cases hc : c' = c
    · subst hc
      rw [Function.update_self] at he'
      cases he'
      exact .inl ⟨rfl, rfl⟩
    · rw [Function.update_of_ne hc] at he'
      exact .inr ⟨hc, he'⟩
  have happart : ∀ {c' : Nat} {e' : Exchange}, w.drafts c' = some e' → Apart e' e := by
    intro c' e' he'
    obtain ⟨-, huser', hanswer'⟩ := h.drawn c' e' he'
    exact ⟨fun heq => huser (heq ▸ huser'), fun heq => hanswer (heq ▸ huser'),
      fun heq => huser (heq ▸ hanswer'), fun heq => hanswer (heq ▸ hanswer')⟩
  refine ⟨hsnapshot, h.partition, ?_, ?_, ?_, ?_, ?_, ?_, ?_, ?_⟩
  · intro id hid
    exact List.mem_append_left _ (h.known id hid)
  · intro c' op' e' hop' he'
    dsimp only at hop' ⊢
    rw [setPhase_phase] at hop'
    split at hop'
    · rename_i hc
      cases hop'
      rw [hop] at he'
      cases he'
      rw [hc, Function.update_self]
    · rename_i hc
      rw [Function.update_of_ne hc]
      exact h.drafted c' op' e' hop' he'
  · intro c' e' he'
    dsimp only
    rcases hold he' with ⟨-, rfl⟩ | ⟨-, hdraft⟩
    · exact ⟨hne, List.mem_append_right _ List.mem_cons_self,
        List.mem_append_right _ (List.mem_cons_of_mem _ List.mem_cons_self)⟩
    · obtain ⟨hne', huser', hanswer'⟩ := h.drawn c' e' hdraft
      exact ⟨hne', List.mem_append_left _ huser', List.mem_append_left _ hanswer'⟩
  · intro c1 c2 e1 e2 he1 he2 hc
    rcases hold he1 with ⟨hc1, rfl⟩ | ⟨hc1, hdraft1⟩
    · rcases hold he2 with ⟨hc2, -⟩ | ⟨-, hdraft2⟩
      · exact absurd (hc1.trans hc2.symm) hc
      · have h2 := happart hdraft2
        exact ⟨h2.users.symm, h2.answerUser.symm, h2.userAnswer.symm, h2.answers.symm⟩
    · rcases hold he2 with ⟨-, rfl⟩ | ⟨-, hdraft2⟩
      · exact happart hdraft1
      · exact h.apart c1 c2 e1 e2 hdraft1 hdraft2 hc
  · intro c' e' he' hmay
    dsimp only at hmay ⊢
    rcases hold he' with ⟨-, rfl⟩ | ⟨hc, hdraft⟩
    · rw [Function.update_self]
      exact ⟨rfl, fun hid => huser (h.known _ hid), fun hid => hanswer (h.known _ hid)⟩
    · rw [setPhase_phase, if_neg hc] at hmay
      rw [Function.update_of_ne (happart hdraft).answers]
      exact h.unsaved c' e' hdraft hmay
  · intro e' he'
    dsimp only
    rw [Function.update_of_ne]
    · exact h.documents e' he'
    · intro heq
      exact hanswer (heq ▸ h.known _ (h.answerId_mem he'))
  · intro e' he' c' e'' he'' hid
    rcases hold he'' with ⟨-, rfl⟩ | ⟨-, hdraft⟩
    · exact absurd (hid ▸ h.known _ (h.answerId_mem he')) hanswer
    · exact h.same e' he' c' e'' hdraft hid
  · intro c' answer appended hphase
    dsimp only at hphase
    rw [setPhase_phase] at hphase
    split at hphase
    · cases hphase
    · exact h.replies c' answer appended hphase

/-- **Every move keeps the store sound.** -/
theorem ChatSound.step {move : ChatMove (requests enc p threads)}
    (hstep : chatStep w move = some w') : ChatSound w' := by
  cases move with
  | begin c op =>
    simp only [chatStep, beginCall, ite_none_right_eq_some] at hstep
    obtain ⟨-, hstep⟩ := hstep
    cases hop : op.exchange with
    | none =>
      rw [hop] at hstep
      obtain ⟨cell, hcell, rfl⟩ := map_eq_some_iff.mp hstep
      exact h.beginQuiet hop hcell
    | some e =>
      rw [hop] at hstep
      simp only [ite_none_right_eq_some] at hstep
      obtain ⟨⟨hne, huser, hanswer⟩, hstep⟩ := hstep
      obtain ⟨cell, hcell, rfl⟩ := map_eq_some_iff.mp hstep
      exact h.beginSave hop hne huser hanswer hcell
  | cell event =>
    have hcall : ∀ c op, event ≠ .call c op := by
      rintro c op rfl
      cases hstep
    rw [chatStep] at hstep
    · obtain ⟨cell, hcell, rfl⟩ := map_eq_some_iff.mp hstep
      exact h.cellStep hcall hcell
    · exact hcall
  | blank c =>
    obtain ⟨e, hdraft, hstep⟩ := bind_eq_some_iff.mp hstep
    simp only [ite_none_right_eq_some, Option.some.injEq] at hstep
    obtain ⟨hblanks, rfl⟩ := hstep
    exact h.blank hdraft hblanks
  | blankEvicted id =>
    simp only [chatStep, ite_none_right_eq_some, Option.some.injEq] at hstep
    obtain ⟨hid, rfl⟩ := hstep
    exact h.blankEvicted hid
  | renew r =>
    cases hstep
    unfold renewHeartbeat
    split
    · exact h.beside rfl rfl rfl rfl
    · split
      · exact h
      · exact h.beside rfl rfl rfl rfl
  | verify i | restore i =>
    obtain ⟨r, -, hstep⟩ := bind_eq_some_iff.mp hstep
    simp only [ite_none_right_eq_some, Option.some.injEq] at hstep
    obtain ⟨-, rfl⟩ := hstep
    exact h.beside rfl rfl rfl rfl
  | dropHeartbeat =>
    cases hstep
    exact h.beside rfl rfl rfl rfl

end

theorem chatSound_of_reaches (h : (chatMachine enc p threads).Reaches Machine.anyStep w) :
    ChatSound w :=
  Machine.invariant (I := ChatSound) (fun _ => chatSound_start)
    (fun _ _ _ hsound _ hstep => hsound.step hstep) h

end Sound

/-! ### What the callers are given -/

structure ReadsAnswer (p : Presentations) (e : Exchange) (answer : Message) : Prop where
  tag : answer.tag = (e.assistantMessageId, .assistant)
  content : answer.content = e.assistantContent
  answerText : ∀ response, answer.response = some response →
    response.get? "answer" = some (.str (String.ofList e.assistantContent))
  response : responseView answer.response =
    responseView (decodeResponse p (e.record p).response e.assistantContent)

def RequestOp.Asks (request : Request) : RequestOp → Prop
  | .reserve call => call.fingerprint = request.fingerprint
  | .complete call =>
    call.fingerprint = request.fingerprint ∧ call.conversationId = request.conversationId
  | _ => False

section Given

variable {enc : Encoding} {p : Presentations} {threads : Threads} {w w' : ChatStore enc p threads}

def ChatStore.finish (w : ChatStore enc p threads) (c : Nat) (answer : Message) : Message :=
  finishReservation p w.docs (w.drafts c) answer

structure GivesAnswer (w : ChatStore enc p threads) (c : Nat) (e : Exchange) (answer : Message) :
    Prop where
  tag : answer.tag = (e.assistantMessageId, .assistant)
  read : e.assistantMessageId ∉ w.cell.doc.evicted → ReadsAnswer p e (w.finish c answer)

theorem ChatSound.givesAnswer (h : ChatSound w) {e : Exchange} {answer : Message}
    (he : e ∈ w.cell.doc.appended) (hcopy : AnswerCopy p e answer) (c : Nat) :
    GivesAnswer w c e answer where
  tag := hcopy.tag
  read := by
    intro hkept
    have hdocs : knownDocs p w.docs (w.drafts c) e.assistantMessageId = some (e.record p) := by
      have hdocument := (h.documents e he).resolve_right hkept
      cases hdraft : w.drafts c with
      | none => exact hdocument
      | some e' =>
        unfold knownDocs
        dsimp only
        by_cases hid : e'.assistantMessageId = e.assistantMessageId
        · obtain rfl := h.same e he c e' hdraft hid
          exact Function.update_self _ _ _
        · rw [Function.update_of_ne (Ne.symm hid)]
          exact hdocument
    unfold ChatStore.finish finishReservation
    revert hdocs
    generalize knownDocs p w.docs (w.drafts c) = docs
    intro hdocs
    obtain ⟨hcontent, hresponse⟩ := hydrated_answer docs none hcopy hdocs
    have htag : (hydrated docs answer none).tag = (e.assistantMessageId, .assistant) :=
      (tag_hydrated docs answer none).trans hcopy.tag
    have hrole : (hydrated docs answer none).role = .assistant := (Prod.mk.inj htag).2
    refine ⟨(tag_decodedMessage _).trans htag, (decodedMessage_content _).trans hcontent, ?_, ?_⟩
    · intro response hdecoded
      rw [← hcontent]
      exact get?_answer_decoded hrole hdecoded
    · rw [decodedMessage_response hrole, hcontent]
      exact hresponse e.assistantContent

variable {d : Partition} {request : Request} {op : RequestOp}

theorem requestChange_of_asks {receipt : Receipt} (hrequest : d.request = some request)
    (hstatus : request.status = .completed receipt) (hasks : op.Asks request) (attempt : Attempt) :
    requestChange enc p attempt d op =
      .ok (.completed (completedAnswer d request.conversationId receipt) false, d) := by
  cases op with
  | reserve call =>
    have hfingerprint : call.fingerprint = request.fingerprint := hasks
    unfold requestChange reserveChange
    dsimp only
    rw [hrequest]
    dsimp only
    rw [if_neg (not_not.mpr hfingerprint.symm), hstatus]
  | complete call =>
    obtain ⟨hfingerprint, hconversation⟩ := hasks
    unfold requestChange completeChange
    dsimp only
    rw [hrequest]
    dsimp only
    rw [if_neg (not_not.mpr hfingerprint.symm), if_neg (not_not.mpr hconversation.symm), hstatus]
    dsimp only
    rw [hconversation]
  | _ => exact hasks.elim

theorem requestChange_of_other (enc : Encoding) (p : Presentations) {fingerprint : Text}
    (hrequest : d.request = some request) (hother : request.fingerprint ≠ fingerprint)
    (hop : op.fingerprint = some fingerprint) (attempt : Attempt) :
    ∃ refusal, requestChange enc p attempt d op = .error refusal := by
  have howned : ∀ leaseToken, ownedBy d.request fingerprint leaseToken = none := by
    intro leaseToken
    cases howned : ownedBy d.request fingerprint leaseToken with
    | none => rfl
    | some r =>
      obtain ⟨hr, -, hfingerprint, -⟩ := ownedBy_eq_some howned
      rw [hrequest] at hr
      cases hr
      exact absurd hfingerprint hother
  cases op with
  | reserve call =>
    cases hop
    refine ⟨.conflict, ?_⟩
    unfold requestChange reserveChange
    dsimp only
    rw [hrequest]
    dsimp only
    rw [if_pos hother]
  | complete call =>
    cases hop
    refine ⟨.conflict, ?_⟩
    unfold requestChange completeChange
    dsimp only
    rw [hrequest]
    dsimp only
    rw [if_pos hother]
  | abort f leaseToken =>
    cases hop
    refine ⟨.unchanged, ?_⟩
    unfold requestChange abortChange
    dsimp only
    rw [howned]
  | endReservation f leaseToken now =>
    cases hop
    refine ⟨.unchanged, ?_⟩
    unfold requestChange endChange
    dsimp only
    rw [howned]
  | append | archive => cases hop

theorem ChatSound.appends (h : ChatSound w) {move : ChatMove (requests enc p threads)}
    (hstep : chatStep w move = some w')
    (happends : w'.cell.doc.appended ≠ w.cell.doc.appended) :
    ∃ c call request, (w.cell.phase c).operation = some (.complete call) ∧
      w.cell.doc.request = some request ∧ request.fingerprint = call.fingerprint ∧
        request.leaseToken = call.leaseToken ∧ w'.cell.doc.appended = [call.exchange] := by
  cases move with
  | cell event =>
    have hcall : ∀ c op, event ≠ .call c op := by
      rintro c op rfl
      cases hstep
    rw [chatStep] at hstep
    · obtain ⟨cell, hcell, rfl⟩ := map_eq_some_iff.mp hstep
      dsimp only at happends ⊢
      rcases CasCell.step_doc hcell with ⟨hdoc, -⟩ | ⟨op, attempt, val, hcommit, -⟩
      · rw [hdoc] at happends
        exact absurd rfl happends
      · have hchanged := changed_of_requestChange (hcommit.change_eq h.snapshot).2
        have hop := hcommit.operation
        revert happends hchanged hop
        generalize cell.doc = next
        intro happends hchanged hop
        cases hchanged with
        | answered hrequest hstatus hfingerprint hconversation htoken happend hanswer
            hconversation' hstatus' =>
            refine ⟨_, _, _, hop, hrequest, hfingerprint, htoken, ?_⟩
            dsimp only
            rw [h.partition.isOpen (open_of_inProgress hrequest hstatus), List.nil_append]
        | saved happend => exact absurd (appends_of_appendToData happend).appended happends
        | _ => exact absurd rfl happends
    · exact hcall
  | begin c op =>
    simp only [chatStep, beginCall, ite_none_right_eq_some] at hstep
    obtain ⟨-, hstep⟩ := hstep
    cases hop : op.exchange with
    | none =>
      rw [hop] at hstep
      obtain ⟨cell, hcell, rfl⟩ := map_eq_some_iff.mp hstep
      obtain rfl := called_cell hcell
      exact absurd rfl happends
    | some e =>
      rw [hop] at hstep
      simp only [ite_none_right_eq_some] at hstep
      obtain ⟨-, hstep⟩ := hstep
      obtain ⟨cell, hcell, rfl⟩ := map_eq_some_iff.mp hstep
      obtain rfl := called_cell hcell
      exact absurd rfl happends
  | blank c =>
    obtain ⟨e, -, hstep⟩ := bind_eq_some_iff.mp hstep
    simp only [ite_none_right_eq_some, Option.some.injEq] at hstep
    obtain ⟨-, rfl⟩ := hstep
    exact absurd rfl happends
  | blankEvicted id =>
    simp only [chatStep, ite_none_right_eq_some, Option.some.injEq] at hstep
    obtain ⟨-, rfl⟩ := hstep
    exact absurd rfl happends
  | renew r =>
    cases hstep
    unfold renewHeartbeat at happends
    split at happends
    · exact absurd rfl happends
    · split at happends <;> exact absurd rfl happends
  | verify i | restore i =>
    obtain ⟨r, -, hstep⟩ := bind_eq_some_iff.mp hstep
    simp only [ite_none_right_eq_some, Option.some.injEq] at hstep
    obtain ⟨-, rfl⟩ := hstep
    exact absurd rfl happends
  | dropHeartbeat =>
    cases hstep
    exact absurd rfl happends

/-- **A request is answered once**: however the calls of any number of workers interleave, fail and
are interrupted, one exchange at most is appended for the key, by a worker that holds the lease; it
is the answer that every caller is given, as it was saved unless its conversation was evicted; and a
call with another fingerprint changes nothing. -/
theorem answered_once (h : (chatMachine enc p threads).Reaches Machine.anyStep w) :
    w.cell.doc.appended.length ≤ 1 ∧
    (∀ move w', chatStep w move = some w' → w'.cell.doc.appended ≠ w.cell.doc.appended →
      ∃ c call request, (w.cell.phase c).operation = some (.complete call) ∧
        w.cell.doc.request = some request ∧ request.fingerprint = call.fingerprint ∧
          request.leaseToken = call.leaseToken ∧ w'.cell.doc.appended = [call.exchange]) ∧
    (∀ c answer appended, w.cell.phase c = .returned (.completed answer appended) →
      ∃ e, w.cell.doc.appended = [e] ∧ GivesAnswer w c e answer) ∧
    (∀ request receipt, w.cell.doc.request = some request → request.status = .completed receipt →
      ∃ e, w.cell.doc.appended = [e] ∧ ∀ op, op.Asks request → ∀ attempt, ∃ answer,
        requestChange enc p attempt w.cell.doc op = .ok (.completed answer false, w.cell.doc) ∧
          (∀ c, GivesAnswer w c e answer) ∧
            (e.assistantMessageId ∈ w.cell.doc.evicted →
              answer = (e.assistantMessage p).receipt.message)) ∧
    (∀ request fingerprint, w.cell.doc.request = some request →
      request.fingerprint ≠ fingerprint →
        (∀ c op left attempt w', w.cell.phase c = .calling op (left + 1) →
          op.fingerprint = some fingerprint →
            chatStep w (.cell (.read c attempt)) = some w' →
              ∃ refusal, w' =
                { w with cell := w.cell.setPhase c (.raised (.refused refusal)) }) ∧
        ∀ r : Renewal, r.fingerprint = fingerprint → r.reserved w.cell.doc.request = false) := by
  have hsound := chatSound_of_reaches h
  refine ⟨?_, ?_, ?_, ?_, ?_⟩
  · by_cases hopen : w.cell.doc.Open
    · rw [hsound.partition.isOpen hopen]
      exact Nat.zero_le 1
    · unfold Partition.Open at hopen
      push Not at hopen
      obtain ⟨request, receipt, hrequest, hstatus⟩ := hopen
      obtain ⟨e, he, -⟩ := hsound.partition.answered request receipt hrequest hstatus
      rw [he]
      exact le_refl 1
  · intro move w' hstep happends
    exact hsound.appends hstep happends
  · intro c answer appended hphase
    obtain ⟨e, he, hcopy⟩ := hsound.replies c answer appended hphase
    refine ⟨e, he, hsound.givesAnswer ?_ hcopy c⟩
    rw [he]
    exact List.mem_singleton_self e
  · intro request receipt hrequest hstatus
    obtain ⟨e, he, hcopy, hevicted⟩ := hsound.partition.completedAnswer hrequest hstatus
    refine ⟨e, he, ?_⟩
    intro op hasks attempt
    refine ⟨_, requestChange_of_asks hrequest hstatus hasks attempt, ?_, hevicted⟩
    intro c
    apply hsound.givesAnswer _ hcopy
    rw [he]
    exact List.mem_singleton_self e
  · intro request fingerprint hrequest hother
    constructor
    · intro c op left attempt w' hphase hop hstep
      obtain ⟨refusal, hrefused⟩ := requestChange_of_other enc p hrequest hother hop
        attempt
      refine ⟨refusal, ?_⟩
      rw [chatStep] at hstep
      · rw [CasCell.step_read_of_refused hphase rfl hrefused] at hstep
        cases hstep
        rfl
      · intro c' op' heq
        cases heq
    · intro r hr
      unfold Renewal.reserved
      rw [hrequest, Option.any_some, hr, decide_eq_false hother, Bool.and_false, Bool.false_and]

end Given

/-! ### An evicted conversation -/

def newStore (threads : Threads) : ChatStore plainEncoding plainPresentations threads where
  cell := ⟨.of threads, 0, fun _ => .idle⟩
  used := (Partition.of threads).ids

theorem newStore_start (threads : Threads) :
    (chatMachine plainEncoding plainPresentations threads).start (newStore threads) :=
  ⟨⟨rfl, rfl, fun _ => rfl⟩, rfl, fun _ => rfl⟩

def laterThreads : Threads :=
  .ofList ((List.range 50).map fun n =>
    ([Char.ofNat (n + 100)], { row := ⟨[], 0, none⟩, updatedAt := 1 }))

def sameReservation : RequestOp := .reserve ⟨['f'], none, ['c'], none, 0, none⟩

def longAnswer : Exchange where
  userMessageId := ['A']
  assistantMessageId := ['B']
  userContent := ['?']
  assistantContent := List.replicate 2001 '!'

def answering (threads : Threads) :
    List (ChatMove (requests plainEncoding plainPresentations threads)) :=
  [.begin 0 sameReservation, .cell (.read 0 ⟨0, ['t'], false, []⟩), .cell (.put 0),
    .begin 0 (.complete ⟨['f'], ['c'], ['t'], false, 0, longAnswer⟩),
    .cell (.read 0 ⟨0, [], false, []⟩), .cell (.put 0)]

def askingAgain (threads : Threads) :
    List (ChatMove (requests plainEncoding plainPresentations threads)) :=
  [.begin 1 sameReservation, .cell (.read 1 ⟨0, ['u'], false, []⟩), .cell (.put 1)]

def secondAnswer {threads : Threads} (w : ChatStore plainEncoding plainPresentations threads) :
    Option (Message × Bool) :=
  match w.cell.phase 1 with
  | .returned (.completed answer appended) => some (answer, appended)
  | _ => none

theorem phase_of_secondAnswer {threads : Threads}
    {w : ChatStore plainEncoding plainPresentations threads} {answer : Message} {appended : Bool}
    (h : secondAnswer w = some (answer, appended)) :
    w.cell.phase 1 = .returned (.completed answer appended) := by
  unfold secondAnswer at h
  split at h
  · rename_i hphase
    cases h
    exact hphase
  · cases h

set_option maxRecDepth 100000 in
/-- A second worker gives the same answer. -/
theorem answered_once_of_second :
    ∃ (w : ChatStore plainEncoding plainPresentations Dict.empty) (e : Exchange)
      (answer : Message), w.cell.phase 1 = .returned (.completed answer false) ∧
        w.cell.doc.appended = [e] ∧ GivesAnswer w 1 e answer := by
  have hrun : ((chatMachine plainEncoding plainPresentations Dict.empty).run (newStore Dict.empty)
      (answering Dict.empty ++ askingAgain Dict.empty)).any
        (fun w => (secondAnswer w).any fun answer => !answer.2) = true := by
    decide
  obtain ⟨w, -, hw, hend⟩ := Machine.reaches_of_run _ _ _ _ (newStore_start Dict.empty) hrun
  obtain ⟨⟨answer, appended⟩, hanswer, happended⟩ := (Option.any_eq_true _ _).mp hend
  obtain rfl : appended = false := by
    rw [Bool.not_eq_true'] at happended
    exact happended
  have hphase := phase_of_secondAnswer hanswer
  obtain ⟨e, he, hgives⟩ := (answered_once hw).2.2.1 1 answer false hphase
  exact ⟨w, e, answer, hphase, he, hgives⟩

set_option maxRecDepth 100000 in
/-- Where the clock of the worker that saves is behind, the conversation is evicted as it is
answered: the other worker gives what the receipt keeps. -/
theorem evicted_answer_shortened :
    ∃ w : ChatStore plainEncoding plainPresentations laterThreads,
      (chatMachine plainEncoding plainPresentations laterThreads).Reaches Machine.anyStep w ∧
        ∃ e ∈ w.cell.doc.appended, ∃ answer,
          w.cell.phase 1 = .returned (.completed answer false) ∧
            (w.finish 1 answer).content ≠ e.assistantContent := by
  have hrun : ((chatMachine plainEncoding plainPresentations laterThreads).run
      (newStore laterThreads)
        (answering laterThreads ++ .blankEvicted ['B'] :: askingAgain laterThreads)).any
          (fun w => w.cell.doc.appended.any fun e => (secondAnswer w).any fun answer =>
            !answer.2 && (w.finish 1 answer.1).content != e.assistantContent) = true := by
    decide
  obtain ⟨w, -, hw, hend⟩ := Machine.reaches_of_run _ _ _ _ (newStore_start laterThreads) hrun
  obtain ⟨e, he, hend⟩ := List.any_eq_true.mp hend
  obtain ⟨⟨answer, appended⟩, hanswer, hdiffers⟩ := (Option.any_eq_true _ _).mp hend
  rw [Bool.and_eq_true, Bool.not_eq_true', bne_iff_ne] at hdiffers
  obtain ⟨hfalse, hdiffers⟩ := hdiffers
  obtain rfl : appended = false := hfalse
  exact ⟨w, hw, e, he, answer, phase_of_secondAnswer hanswer, hdiffers⟩

end AgenticKibana.Conversations
