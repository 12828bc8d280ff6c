import AgenticKibana.Conversations.ReplayRuns
import AgenticKibana.Conversations.Reservations

/-!
# A request is answered once

The record of a key is in progress until an exchange is appended for it, in the same write that
makes it a receipt; from then on it stays.  What is left of the answer, in its conversation or in
the receipt, stays a copy of it, and its document is kept until retention evicts the conversation.
-/

namespace AgenticKibana.Conversations

open AgenticKibana.Library List

section Trimming

variable {enc : Encoding} {P : Message → Prop}

theorem trimLoop_forall (hanswer : ∀ m, P m → exchangeBacked m = true → P (shortAnswer m))
    (hquestion : ∀ m, P m → P (shortQuestion m))
    (hold : ∀ m, P m → exchangeBacked m ≠ true →
      P { m with response := some (enc.downgrade m.stored) })
    (room : Nat) (total : Int) {done rest : List Message} (hdone : ∀ m ∈ done, P m)
    (hrest : ∀ m ∈ rest, P m) : ∀ m ∈ trimLoop enc room total done rest, P m := by
  have hkept : ∀ {done rest : List Message}, (∀ m ∈ done, P m) → (∀ m ∈ rest, P m) →
      ∀ m ∈ done.reverse ++ rest, P m := by
    intro done rest hdone hrest m hm
    rcases mem_append.mp hm with hleft | hright
    · exact hdone m (mem_reverse.mp hleft)
    · exact hrest m hright
  induction room generalizing total done rest with
  | zero => exact hkept hdone hrest
  | succ room ih =>
    cases rest with
    | nil =>
      rw [trimLoop]
      · intro m hm
        exact hdone m (mem_reverse.mp hm)
      · exact Nat.succ_ne_zero room
    | cons m rest =>
      rw [forall_mem_cons] at hrest
      rw [trimLoop]
      split
      · exact hkept hdone (forall_mem_cons.mpr hrest)
      split
      · exact ih _ (forall_mem_cons.mpr ⟨hrest.1, hdone⟩) hrest.2
      split
      · rename_i hbacked
        cases done with
        | nil =>
          exact ih _ (forall_mem_singleton.mpr (hanswer m hrest.1 hbacked)) hrest.2
        | cons prior done =>
          rw [forall_mem_cons] at hdone
          refine ih _ ?_ hrest.2
          exact forall_mem_cons.mpr ⟨hanswer m hrest.1 hbacked,
            forall_mem_cons.mpr ⟨hquestion prior hdone.1, hdone.2⟩⟩
      · rename_i hbacked
        exact ih _ (forall_mem_cons.mpr ⟨hold m hrest.1 hbacked, hdone⟩) hrest.2

theorem trimMessages_forall (hanswer : ∀ m, P m → exchangeBacked m = true → P (shortAnswer m))
    (hquestion : ∀ m, P m → P (shortQuestion m))
    (hold : ∀ m, P m → exchangeBacked m ≠ true →
      P { m with response := some (enc.downgrade m.stored) })
    {messages : List Message} (h : ∀ m ∈ messages, P m) :
    ∀ m ∈ trimMessages enc messages, P m := by
  unfold trimMessages
  dsimp only
  split
  · exact h
  · exact trimLoop_forall hanswer hquestion hold _ _ (fun m hm => by cases hm) h

theorem trimLoop_tail (room : Nat) (total : Int) (done front tail : List Message)
    (hroom : room ≤ front.length) :
    ∃ front', trimLoop enc room total done (front ++ tail) = front' ++ tail := by
  induction room generalizing total done front with
  | zero =>
    refine ⟨done.reverse ++ front, ?_⟩
    rw [trimLoop, append_assoc]
  | succ room ih =>
    cases front with
    | nil => exact absurd hroom (Nat.not_succ_le_zero room)
    | cons m front =>
      have hroom := Nat.le_of_succ_le_succ hroom
      rw [cons_append, trimLoop]
      split
      · refine ⟨done.reverse ++ m :: front, ?_⟩
        rw [append_assoc]
        rfl
      split
      · exact ih _ _ _ hroom
      split
      · cases done with
        | nil | cons prior done => exact ih _ _ _ hroom
      · exact ih _ _ _ hroom

theorem trimMessages_newest (enc : Encoding) (messages : List Message) (question answer : Message) :
    ∃ front, trimMessages enc (messages ++ [question, answer]) = front ++ [question, answer] := by
  unfold trimMessages
  dsimp only
  split
  · exact ⟨messages, rfl⟩
  · apply trimLoop_tail
    rw [length_append, length_cons, length_singleton]
    omega

end Trimming

section Left

variable {p : Presentations} {e : Exchange} {m : Message}

def CopyIfAnswer (p : Presentations) (e : Exchange) (m : Message) : Prop :=
  m.id = e.assistantMessageId → AnswerCopy p e m

theorem CopyIfAnswer.trim {enc : Encoding} {messages : List Message}
    (h : ∀ m ∈ messages, CopyIfAnswer p e m) :
    ∀ m ∈ trimMessages enc messages, CopyIfAnswer p e m := by
  refine trimMessages_forall ?_ ?_ ?_ h
  · intro m hm _ hid
    refine (hm ?_).short
    rw [← hid]
    exact (Prod.mk.inj (tag_shortAnswer m)).1.symm
  · intro m hm hid
    have hcopy := hm ((Prod.mk.inj (tag_shortQuestion m)).1.symm.trans hid)
    have hsame : shortQuestion m = m := by
      unfold shortQuestion
      rw [if_neg]
      rintro ⟨huser, -⟩
      rw [role_of_backed hcopy.backed] at huser
      cases huser
    rw [hsame]
    exact hcopy
  · intro m hm hbacked hid
    exact absurd (hm hid).backed hbacked

theorem needsHydration_receipt (h : exchangeBacked m = true) :
    needsHydration m.receipt.message = true := by
  have hmarker : m.stored.get? exchangeMarker = some (.bool true) := by
    unfold exchangeBacked at h
    rw [Bool.and_eq_true] at h
    obtain ⟨-, hmatch⟩ := h
    split at hmatch
    · rename_i heq
      exact heq
    · cases hmatch
  cases hresponse : m.response with
  | none =>
    unfold Message.stored at hmarker
    rw [hresponse] at hmarker
    cases hmarker
  | some stored =>
    unfold Message.stored at hmarker
    rw [hresponse, Option.getD_some] at hmarker
    unfold needsHydration exchangeBacked isTruncated Receipt.message Message.receipt Message.stored
      receiptResponse
    dsimp only
    rw [hresponse, Option.map_some, Option.getD_some, hmarker]
    dsimp only
    rw [if_pos rfl, Dict.get?_set_self, Dict.get?_set_of_ne _ _ (by decide), Dict.get?_set_self]
    rfl

theorem answerCopy_receipt (p : Presentations) (e : Exchange) :
    AnswerCopy p e (e.assistantMessage p).receipt.message :=
  .of_needsHydration rfl (needsHydration_receipt (answerCopy_saved p e).backed)

end Left

/-! ### What a change of the partition can be -/

def Partition.Open (d : Partition) : Prop :=
  ∀ request receipt, d.request = some request → request.status ≠ .completed receipt

inductive Changed (enc : Encoding) (p : Presentations) (d : Partition) :
    RequestOp → Outcome → Partition → Prop
  | reserved {call : ReserveCall} {conversationId leaseToken : Text} {request : Request}
      (hopen : d.Open) (hstatus : request.status = .inProgress false) :
      Changed enc p d (.reserve call) (.reserved conversationId leaseToken)
        { d with request := some request }
  | replayed {op : RequestOp} {request : Request} {receipt : Receipt}
      (hrequest : d.request = some request) (hstatus : request.status = .completed receipt) :
      Changed enc p d op
        (.completed (completedAnswer d request.conversationId receipt) false) d
  | answered {call : CompleteCall} {request request' : Request} {ended : Bool}
      {running : List Text} {next : Partition} {stored : Thread} {answer : Message}
      (hrequest : d.request = some request) (hstatus : request.status = .inProgress ended)
      (hfingerprint : request.fingerprint = call.fingerprint)
      (hconversation : request.conversationId = call.conversationId)
      (htoken : request.leaseToken = call.leaseToken)
      (happend : appendToData enc p d call.conversationId call.existing call.exchange call.now
        running = some (next, stored))
      (hanswer : stored.row.messages.find? (fun m =>
        m.id = call.exchange.assistantMessageId) = some answer)
      (hconversation' : request'.conversationId = request.conversationId)
      (hstatus' : request'.status = .completed answer.receipt) :
      Changed enc p d (.complete call) (.completed answer true)
        { next with request := some request', appended := d.appended ++ [call.exchange] }
  | released {op : RequestOp} (hopen : d.Open) :
      Changed enc p d op .done { d with request := none }
  | ended {op : RequestOp} {request : Request} (hopen : d.Open)
      (hstatus : request.status = .inProgress true) :
      Changed enc p d op .done { d with request := some request }
  | unsaved {op : RequestOp} : Changed enc p d op (.saved false) d
  | saved {conversationId : Text} {existing : Bool} {now : Int} {e : Exchange}
      {running : List Text} {next : Partition} {stored : Thread}
      (happend : appendToData enc p d conversationId existing e now running = some (next, stored)) :
      Changed enc p d (.append conversationId existing now e) (.saved true) next
  | archived {conversationId : Text} {a : Archiver} {t : Thread}
      (hthread : d.threads.get? conversationId = some t) (hcount : t.row.count = a.count)
      (hids : (t.row.messages.take a.moved.length).map Message.id = a.ids) :
      Changed enc p d (.archive conversationId a) .done
        { d with threads := d.threads.set conversationId (t.archive a) }

section Changes

variable {enc : Encoding} {p : Presentations} {d next : Partition} {val : Outcome}
  {attempt : Attempt}

theorem open_of_inProgress {request : Request} {ended : Bool} (hrequest : d.request = some request)
    (hstatus : request.status = .inProgress ended) : d.Open := by
  intro request' receipt hrequest'
  rw [hrequest] at hrequest'
  cases hrequest'
  rw [hstatus]
  intro h
  cases h

theorem open_of_none (h : d.request = none) : d.Open := by
  intro request receipt hrequest
  rw [h] at hrequest
  cases hrequest

theorem changed_reserve {call : ReserveCall}
    (h : reserveChange call attempt d = .ok (val, next)) :
    Changed enc p d (.reserve call) val next := by
  unfold reserveChange at h
  split at h
  · rename_i request hrequest
    split at h
    · cases h
    · split at h
      · rename_i receipt hstatus
        cases h
        exact .replayed hrequest hstatus
      · rename_i ended hstatus
        split at h
        · cases h
        · split at h
          · cases h
          · cases h
            exact .reserved (open_of_inProgress hrequest hstatus) rfl
  · rename_i hrequest
    split at h
    · cases h
    · split at h
      · cases h
      · cases h
        exact .reserved (open_of_none hrequest) rfl

theorem changed_complete {call : CompleteCall}
    (h : completeChange enc p call attempt d = .ok (val, next)) :
    Changed enc p d (.complete call) val next := by
  unfold completeChange at h
  split at h
  · split at h <;> cases h
  · rename_i request hrequest
    split at h
    · cases h
    · rename_i hfingerprint
      split at h
      · cases h
      · rename_i hconversation
        rw [not_not] at hfingerprint hconversation
        split at h
        · rename_i receipt hstatus
          cases h
          rw [← hconversation]
          exact .replayed hrequest hstatus
        · rename_i ended hstatus
          split at h
          · cases h
          · rename_i htoken
            split at h
            · cases h
            · rename_i next' stored happend
              split at h
              · cases h
              · rename_i answer hanswer
                cases h
                exact .answered hrequest hstatus hfingerprint hconversation (not_not.mp htoken)
                  happend hanswer rfl rfl

variable {fingerprint leaseToken : Text}

theorem ownedBy_eq_some {request : Option Request} {r : Request}
    (h : ownedBy request fingerprint leaseToken = some r) :
    request = some r ∧ (∃ ended, r.status = .inProgress ended) ∧ r.fingerprint = fingerprint ∧
      r.leaseToken = leaseToken := by
  obtain ⟨hrequest, howned⟩ := Option.filter_eq_some_iff.mp h
  rw [Bool.and_eq_true, Bool.and_eq_true, decide_eq_true_eq, decide_eq_true_eq] at howned
  refine ⟨hrequest, ?_, howned.1.2, howned.2⟩
  have hstatus := howned.1.1
  cases hcase : r.status with
  | inProgress ended => exact ⟨ended, rfl⟩
  | completed receipt =>
    rw [hcase] at hstatus
    cases hstatus

theorem changed_abort (h : abortChange fingerprint leaseToken d = .ok (val, next)) :
    Changed enc p d (.abort fingerprint leaseToken) val next := by
  unfold abortChange at h
  split at h
  · cases h
  · rename_i request howned
    obtain ⟨hrequest, ⟨ended, hstatus⟩, -⟩ := ownedBy_eq_some howned
    cases h
    exact .released (open_of_inProgress hrequest hstatus)

variable {now : Int}

theorem changed_end (h : endChange fingerprint leaseToken now d = .ok (val, next)) :
    Changed enc p d (.endReservation fingerprint leaseToken now) val next := by
  unfold endChange at h
  split at h
  · cases h
  · rename_i request howned
    obtain ⟨hrequest, ⟨ended, hstatus⟩, -⟩ := ownedBy_eq_some howned
    cases h
    exact .ended (open_of_inProgress hrequest hstatus) rfl

variable {conversationId : Text}

theorem changed_append {existing : Bool} {e : Exchange}
    (h : appendChange enc p conversationId existing now e attempt d = .ok (val, next)) :
    Changed enc p d (.append conversationId existing now e) val next := by
  unfold appendChange at h
  split at h
  · cases h
    exact .unsaved
  · rename_i next' stored happend
    cases h
    exact .saved happend

theorem changed_archive {a : Archiver} (h : archiveChange conversationId a d = .ok (val, next)) :
    Changed enc p d (.archive conversationId a) val next := by
  unfold archiveChange at h
  split at h
  · cases h
  · rename_i t hthread
    dsimp only at h
    split at h
    · cases h
    · rename_i hsame
      push Not at hsame
      cases h
      exact .archived hthread hsame.1 hsame.2

/-- **Every change is one of the ways a call can change the partition.** -/
theorem changed_of_requestChange {op : RequestOp}
    (h : requestChange enc p attempt d op = .ok (val, next)) : Changed enc p d op val next := by
  cases op with
  | reserve call => exact changed_reserve h
  | complete call => exact changed_complete h
  | abort fingerprint leaseToken => exact changed_abort h
  | endReservation fingerprint leaseToken now => exact changed_end h
  | append conversationId existing now e => exact changed_append h
  | archive conversationId a => exact changed_archive h

end Changes

section Appending

variable {enc : Encoding} {p : Presentations} {d next : Partition} {conversationId : Text}
  {existing : Bool} {e : Exchange} {now : Int} {running : List Text} {stored : Thread}

theorem get?_retained {threads : Threads} {cid : Text} {t : Thread}
    (h : (retained running threads).get? cid = some t) : threads.get? cid = some t := by
  unfold retained at h
  dsimp only at h
  split at h
  · exact h
  · exact (Dict.get?_filter_eq_some.mp h).1

theorem mem_ids_answer (t : Thread) (e : Exchange) (now : Int) (id : Text) :
    id ∈ (t.answer enc p e now).ids ↔
      id ∈ t.ids ∨ id = e.userMessageId ∨ id = e.assistantMessageId := by
  have hids : (trimMessages enc (t.row.messages ++ [e.userMessage, e.assistantMessage p])).map
      Message.id = t.row.messages.map Message.id ++ [e.userMessageId, e.assistantMessageId] := by
    have htags := congrArg (List.map Prod.fst) (tags_trimMessages enc
      (t.row.messages ++ [e.userMessage, e.assistantMessage p]))
    rw [map_map, map_map, map_append (f := Prod.fst ∘ Message.tag)] at htags
    exact htags
  unfold Thread.ids Thread.answer
  dsimp only
  rw [hids, ← append_assoc, mem_append, mem_cons, mem_singleton]

/-- What `_append_to_data` does to the partition. -/
structure Appends (enc : Encoding) (p : Presentations) (d : Partition) (conversationId : Text)
    (e : Exchange) (now : Int) (next : Partition) (stored : Thread) : Prop where
  thread : stored =
    ((d.threads.get? conversationId).getD (newThread now)).answer enc p e now
  threads : ∀ cid t, next.threads.get? cid = some t →
    (cid = conversationId ∧ t = stored) ∨
      (cid ≠ conversationId ∧ d.threads.get? cid = some t)
  ids : next.ids = d.ids ++ [e.userMessageId, e.assistantMessageId]
  request : next.request = d.request
  appended : next.appended = d.appended
  evicted : ∀ id ∈ next.evicted, id ∈ d.evicted ∨ ∃ cid t, id ∈ t.ids ∧
    next.threads.get? cid = none ∧
      ((cid = conversationId ∧ t = stored) ∨
        (cid ≠ conversationId ∧ d.threads.get? cid = some t))
  keeps : ∀ id ∈ d.evicted, id ∈ next.evicted

theorem appends_of_appendToData
    (h : appendToData enc p d conversationId existing e now running = some (next, stored)) :
    Appends enc p d conversationId e now next stored := by
  unfold appendToData at h
  dsimp only at h
  split at h
  · cases h
  · cases h
    have hset : ∀ {cid : Text} {t stored : Thread},
        (d.threads.set conversationId stored).get? cid = some t →
          (cid = conversationId ∧ t = stored) ∨
            (cid ≠ conversationId ∧ d.threads.get? cid = some t) := by
      intro cid t stored ht
      by_cases hcid : cid = conversationId
      · subst hcid
        rw [Dict.get?_set_self] at ht
        cases ht
        exact .inl ⟨rfl, rfl⟩
      · rw [Dict.get?_set_of_ne _ _ hcid] at ht
        exact .inr ⟨hcid, ht⟩
    refine ⟨rfl, ?_, rfl, rfl, rfl, ?_, ?_⟩
    · intro cid t ht
      exact hset (get?_retained ht)
    · intro id hid
      rcases mem_append.mp hid with hold | hnew
      · exact .inl hold
      · obtain ⟨t, ht, hmem⟩ := mem_flatMap.mp hnew
        obtain ⟨cid, hcid⟩ := Dict.mem_values_iff.mp ht
        obtain ⟨hthread, hgone⟩ := Dict.get?_filter_eq_some.mp hcid
        refine .inr ⟨cid, t, hmem, ?_, hset hthread⟩
        unfold Dict.contains at hgone
        rw [Bool.not_eq_true', Option.isSome_eq_false_iff, Option.isNone_iff_eq_none] at hgone
        exact hgone
    · intro id hid
      exact mem_append_left _ hid

theorem Appends.messages (h : Appends enc p d conversationId e now next stored) :
    stored.row.messages = trimMessages enc
      (((d.threads.get? conversationId).getD (newThread now)).row.messages ++
        [e.userMessage, e.assistantMessage p]) := by
  rw [h.thread]
  rfl

theorem Appends.mem_ids (h : Appends enc p d conversationId e now next stored) {id : Text}
    (hid : id ∈ stored.ids) :
    (∃ t, d.threads.get? conversationId = some t ∧ id ∈ t.ids) ∨ id = e.userMessageId ∨
      id = e.assistantMessageId := by
  rw [h.thread, mem_ids_answer] at hid
  refine hid.imp_left fun hold => ?_
  cases hthread : d.threads.get? conversationId with
  | none =>
    rw [hthread] at hold
    cases hold
  | some t =>
    rw [hthread] at hold
    exact ⟨t, rfl, hold⟩

end Appending

/-! ### Soundness of the partition -/

structure AnswerKept (p : Presentations) (d : Partition) (conversationId : Text) (e : Exchange) :
    Prop where
  copies : ∀ cid t, d.threads.get? cid = some t → ∀ m ∈ t.row.messages, CopyIfAnswer p e m
  placed : ∀ cid t, d.threads.get? cid = some t → e.assistantMessageId ∈ t.ids →
    cid = conversationId
  evicted : e.assistantMessageId ∈ d.evicted → ∀ cid t, d.threads.get? cid = some t →
    e.assistantMessageId ∉ t.ids

structure PartitionSound (p : Presentations) (d : Partition) : Prop where
  ids : ∀ cid t, d.threads.get? cid = some t → ∀ id ∈ t.ids, id ∈ d.ids
  evicted : ∀ id ∈ d.evicted, id ∈ d.ids
  appended : ∀ e ∈ d.appended, e.assistantMessageId ∈ d.ids
  isOpen : d.Open → d.appended = []
  answered : ∀ request receipt, d.request = some request → request.status = .completed receipt →
    ∃ e, d.appended = [e] ∧ receipt = (e.assistantMessage p).receipt ∧
      AnswerKept p d request.conversationId e

section Sound

variable {enc : Encoding} {p : Presentations} {d next : Partition} {conversationId cid : Text}
  {e answered : Exchange} {now : Int} {stored : Thread}

theorem partitionSound_of (threads : Threads) : PartitionSound p (.of threads) where
  ids := by
    intro cid t ht id hid
    exact mem_flatMap.mpr ⟨t, Dict.mem_values_iff.mpr ⟨cid, ht⟩, hid⟩
  evicted := by
    intro id hid
    cases hid
  appended := by
    intro e he
    cases he
  isOpen _ := rfl
  answered := by
    intro request receipt hrequest
    cases hrequest

variable {t : Thread}

theorem id_mem_ids {m : Message} (h : m ∈ t.row.messages) : m.id ∈ t.ids :=
  mem_append_right _ (mem_map_of_mem h)

theorem AnswerKept.append (h : AnswerKept p d cid answered)
    (happend : Appends enc p d conversationId e now next stored)
    (huser : e.userMessageId ≠ answered.assistantMessageId)
    (hanswer : e.assistantMessageId = answered.assistantMessageId →
      e = answered ∧ conversationId = cid ∧ answered.assistantMessageId ∉ d.evicted) :
    AnswerKept p next cid answered := by
  have hplaced : ∀ cid' t, (cid' = conversationId ∧ t = stored) ∨
      (cid' ≠ conversationId ∧ d.threads.get? cid' = some t) →
        answered.assistantMessageId ∈ t.ids → cid' = cid := by
    rintro cid' t (⟨rfl, rfl⟩ | ⟨-, hold⟩) hid
    · rcases happend.mem_ids hid with ⟨t, ht, hmem⟩ | heq | heq
      · exact h.placed _ t ht hmem
      · exact absurd heq.symm huser
      · exact (hanswer heq.symm).2.1
    · exact h.placed cid' t hold hid
  constructor
  · intro cid' t ht
    rcases happend.threads cid' t ht with ⟨-, rfl⟩ | ⟨-, hold⟩
    · rw [happend.messages]
      apply CopyIfAnswer.trim
      intro m hm
      rcases mem_append.mp hm with hold | hnew
      · cases hthread : d.threads.get? conversationId with
        | none =>
          rw [hthread] at hold
          cases hold
        | some t =>
          rw [hthread] at hold
          exact h.copies _ t hthread m hold
      · rcases mem_cons.mp hnew with rfl | hlast
        · intro hid
          exact absurd hid huser
        · obtain rfl := mem_singleton.mp hlast
          intro hid
          rw [← (hanswer hid).1]
          exact answerCopy_saved p e
    · exact h.copies cid' t hold
  · intro cid' t ht
    exact hplaced cid' t (happend.threads cid' t ht)
  · intro hevicted cid' t ht hid
    rcases happend.evicted _ hevicted with hold | ⟨gone, t', hmem, hgone, hthread⟩
    · rcases happend.threads cid' t ht with ⟨-, rfl⟩ | ⟨-, hthread⟩
      · rcases happend.mem_ids hid with ⟨t, ht, hmem⟩ | heq | heq
        · exact h.evicted hold _ t ht hmem
        · exact huser heq.symm
        · exact (hanswer heq.symm).2.2 hold
      · exact h.evicted hold cid' t hthread hid
    · -- the evicted conversation is the one that has the answer
      rw [hplaced cid' t (happend.threads cid' t ht) hid,
        ← hplaced gone t' hthread hmem, hgone] at ht
      cases ht

variable (h : PartitionSound p d)

include h

theorem PartitionSound.answerKept (cid : Text) (hnew : e.assistantMessageId ∉ d.ids) :
    AnswerKept p d cid e where
  copies := by
    intro cid' t ht m hm hid
    exact absurd (hid ▸ h.ids cid' t ht m.id (id_mem_ids hm)) hnew
  placed := by
    intro cid' t ht hid
    exact absurd (h.ids cid' t ht _ hid) hnew
  evicted := by
    intro hid
    exact absurd (h.evicted _ hid) hnew

section

variable (happend : Appends enc p d conversationId e now next stored)

include happend

theorem find?_saved (hne : e.userMessageId ≠ e.assistantMessageId)
    (hnew : e.assistantMessageId ∉ d.ids) :
    stored.row.messages.find? (fun m => m.id = e.assistantMessageId) =
      some (e.assistantMessage p) := by
  obtain ⟨front, hfront⟩ := trimMessages_newest enc
    ((d.threads.get? conversationId).getD (newThread now)).row.messages
    e.userMessage (e.assistantMessage p)
  have htags := tags_trimMessages enc
    (((d.threads.get? conversationId).getD (newThread now)).row.messages ++
      [e.userMessage, e.assistantMessage p])
  rw [hfront, map_append, map_append] at htags
  have hold := append_cancel_right htags
  rw [happend.messages, hfront, find?_append, find?_eq_none.mpr]
  · rw [Option.none_or, find?_cons_of_neg, find?_cons_of_pos]
    · exact decide_eq_true rfl
    · rw [decide_eq_true_eq]
      exact hne
  · intro m hm hid
    rw [decide_eq_true_eq] at hid
    have hmem := mem_map_of_mem (f := Message.tag) hm
    rw [hold] at hmem
    obtain ⟨m', hm', htag⟩ := mem_map.mp hmem
    have hid' : m'.id = e.assistantMessageId := (Prod.mk.inj htag).1.trans hid
    cases hthread : d.threads.get? conversationId with
    | none =>
      rw [hthread] at hm'
      cases hm'
    | some t =>
      rw [hthread] at hm'
      exact hnew (hid' ▸ h.ids _ t hthread _ (id_mem_ids hm'))

theorem PartitionSound.ids_append : ∀ cid t, (cid = conversationId ∧ t = stored) ∨
      (cid ≠ conversationId ∧ d.threads.get? cid = some t) → ∀ id ∈ t.ids, id ∈ next.ids := by
  rintro cid t hthread id hid
  rw [happend.ids, mem_append, mem_cons, mem_singleton]
  rcases hthread with ⟨rfl, rfl⟩ | ⟨-, hold⟩
  · rcases happend.mem_ids hid with ⟨t, ht, hmem⟩ | heq
    · exact .inl (h.ids _ t ht id hmem)
    · exact .inr heq
  · exact .inl (h.ids cid t hold id hid)

theorem PartitionSound.evicted_append : ∀ id ∈ next.evicted, id ∈ next.ids := by
  intro id hid
  rcases happend.evicted id hid with hold | ⟨cid, t, hmem, -, hthread⟩
  · rw [happend.ids]
    exact mem_append_left _ (h.evicted id hold)
  · exact h.ids_append happend cid t hthread id hmem

theorem PartitionSound.append (hnew : e.userMessageId ∉ d.ids ∧ e.assistantMessageId ∉ d.ids) :
    PartitionSound p next where
  ids cid t ht := h.ids_append happend cid t (happend.threads cid t ht)
  evicted := h.evicted_append happend
  appended := by
    intro answered hanswered
    rw [happend.appended] at hanswered
    rw [happend.ids]
    exact mem_append_left _ (h.appended answered hanswered)
  isOpen := by
    intro hopen
    rw [happend.appended]
    apply h.isOpen
    rwa [Partition.Open, happend.request] at hopen
  answered := by
    intro request receipt hrequest hstatus
    rw [happend.request] at hrequest
    obtain ⟨answered, hanswered, hreceipt, hkept⟩ := h.answered request receipt hrequest hstatus
    have hmem : answered.assistantMessageId ∈ d.ids := by
      apply h.appended
      rw [hanswered]
      exact mem_singleton_self _
    rw [happend.appended]
    refine ⟨answered, hanswered, hreceipt, hkept.append happend ?_ ?_⟩
    · intro heq
      exact hnew.1 (heq ▸ hmem)
    · intro heq
      exact absurd (heq ▸ hmem) hnew.2

variable {request : Request}

theorem PartitionSound.answer (hopen : d.Open)
    (hne : e.userMessageId ≠ e.assistantMessageId) (hnew : e.assistantMessageId ∉ d.ids)
    (hconversation : request.conversationId = conversationId)
    (hstatus : request.status = .completed (e.assistantMessage p).receipt) :
    PartitionSound p { next with request := some request, appended := d.appended ++ [e] } where
  ids cid t ht := h.ids_append happend cid t (happend.threads cid t ht)
  evicted id hid := h.evicted_append happend id hid
  appended := by
    intro answered hanswered
    rw [h.isOpen hopen, nil_append, mem_singleton] at hanswered
    subst hanswered
    dsimp only
    rw [happend.ids]
    exact mem_append_right _ (mem_cons_of_mem _ (mem_singleton_self _))
  isOpen := by
    intro hno
    exact absurd hstatus (hno request _ rfl)
  answered := by
    intro request' receipt hrequest hstatus'
    cases hrequest
    rw [hstatus] at hstatus'
    cases hstatus'
    refine ⟨e, by rw [h.isOpen hopen, nil_append], rfl, ?_⟩
    have hkept := (h.answerKept request.conversationId hnew).append happend hne
      fun _ => ⟨rfl, hconversation.symm, fun hid => hnew (h.evicted _ hid)⟩
    exact ⟨hkept.copies, hkept.placed, hkept.evicted⟩

end

variable {a : Archiver}

omit h in
theorem ids_archive (hcount : t.row.count = a.count)
    (hids : (t.row.messages.take a.moved.length).map Message.id = a.ids) :
    (t.archive a).ids = t.ids ∧
      (t.archive a).row.messages = t.row.messages.drop a.moved.length := by
  have hrow : recordArchive t.row a =
      ⟨t.row.messages.drop a.moved.length, a.count + a.moved.length, a.oldestAt⟩ := by
    unfold recordArchive
    dsimp only
    rw [if_neg]
    push Not
    exact ⟨hcount, hids⟩
  unfold Thread.ids Thread.archive
  dsimp only
  rw [hrow]
  refine ⟨?_, rfl⟩
  rw [append_assoc, ← map_append, take_append_drop]

theorem PartitionSound.archive (hthread : d.threads.get? conversationId = some t)
    (hcount : t.row.count = a.count)
    (hids : (t.row.messages.take a.moved.length).map Message.id = a.ids) :
    PartitionSound p { d with threads := d.threads.set conversationId (t.archive a) } := by
  obtain ⟨hsame, hmessages⟩ := ids_archive hcount hids
  have hold : ∀ cid t', (d.threads.set conversationId (t.archive a)).get? cid = some t' →
      ∃ t, d.threads.get? cid = some t ∧ t'.ids = t.ids ∧
        ∀ m ∈ t'.row.messages, m ∈ t.row.messages := by
    intro cid t' ht'
    by_cases hcid : cid = conversationId
    · subst hcid
      rw [Dict.get?_set_self] at ht'
      cases ht'
      refine ⟨t, hthread, hsame, ?_⟩
      rw [hmessages]
      intro m hm
      exact mem_of_mem_drop hm
    · rw [Dict.get?_set_of_ne _ _ hcid] at ht'
      exact ⟨t', ht', rfl, fun m hm => hm⟩
  constructor
  · intro cid t' ht' id hid
    obtain ⟨t, ht, heq, -⟩ := hold cid t' ht'
    exact h.ids cid t ht id (heq ▸ hid)
  · exact h.evicted
  · exact h.appended
  · exact h.isOpen
  · intro request receipt hrequest hstatus
    obtain ⟨e, hanswered, hreceipt, hkept⟩ := h.answered request receipt hrequest hstatus
    refine ⟨e, hanswered, hreceipt, ?_, ?_, ?_⟩
    · intro cid t' ht' m hm
      obtain ⟨t, ht, -, hmem⟩ := hold cid t' ht'
      exact hkept.copies cid t ht m (hmem m hm)
    · intro cid t' ht' hid
      obtain ⟨t, ht, heq, -⟩ := hold cid t' ht'
      exact hkept.placed cid t ht (heq ▸ hid)
    · intro hevicted cid t' ht' hid
      obtain ⟨t, ht, heq, -⟩ := hold cid t' ht'
      exact hkept.evicted hevicted cid t ht (heq ▸ hid)

theorem PartitionSound.withRequest (hopen : d.Open)
    {request : Option Request} (hnew : ∀ r receipt, request = some r →
      r.status ≠ .completed receipt) :
    PartitionSound p { d with request := request } where
  ids := h.ids
  evicted := h.evicted
  appended := h.appended
  isOpen _ := h.isOpen hopen
  answered := by
    intro r receipt hrequest hstatus
    exact absurd hstatus (hnew r receipt hrequest)

def NewIds (op : RequestOp) (d : Partition) : Prop :=
  ∀ e, op.exchange = some e → e.userMessageId ≠ e.assistantMessageId ∧
    e.userMessageId ∉ d.ids ∧ e.assistantMessageId ∉ d.ids

variable {op : RequestOp} {val : Outcome}

/-- **Every change keeps the partition sound.** -/
theorem PartitionSound.changed (hchanged : Changed enc p d op val next)
    (hnew : NewIds op d) : PartitionSound p next := by
  cases hchanged with
  | reserved hopen hstatus =>
    refine h.withRequest hopen ?_
    intro r receipt heq
    cases heq
    rw [hstatus]
    intro hno
    cases hno
  | replayed hrequest hstatus => exact h
  | answered hrequest hstatus hfingerprint hconversation htoken happend hanswer hconversation'
      hstatus' =>
      obtain ⟨hne, -, hid⟩ := hnew _ rfl
      have happends := appends_of_appendToData happend
      rw [find?_saved h happends hne hid] at hanswer
      cases hanswer
      exact h.answer happends (open_of_inProgress hrequest hstatus) hne hid
        (hconversation'.trans hconversation) hstatus'
  | released hopen =>
    refine h.withRequest hopen ?_
    intro r receipt heq
    cases heq
  | ended hopen hstatus =>
    refine h.withRequest hopen ?_
    intro r receipt heq
    cases heq
    rw [hstatus]
    intro hno
    cases hno
  | unsaved => exact h
  | saved happend => exact h.append (appends_of_appendToData happend) (hnew _ rfl).2
  | archived hthread hcount hids => exact h.archive hthread hcount hids

omit h in
theorem Changed.grows (h : Changed enc p d op val next) :
    (next.ids = d.ids ∨ ∃ e, op.exchange = some e ∧
      next.ids = d.ids ++ [e.userMessageId, e.assistantMessageId]) ∧
    (next.appended = d.appended ∨
      ∃ e, op.exchange = some e ∧ d.Open ∧ next.appended = d.appended ++ [e]) ∧
    ∀ id ∈ d.evicted, id ∈ next.evicted := by
  cases h with
  | @answered call request request' ended running next stored answer hrequest hstatus hfingerprint
      hconversation htoken happend hanswer hconversation' hstatus' =>
      have happends := appends_of_appendToData happend
      exact ⟨.inr ⟨_, rfl, happends.ids⟩,
        .inr ⟨_, rfl, open_of_inProgress hrequest hstatus, rfl⟩, happends.keeps⟩
  | saved happend =>
    have happends := appends_of_appendToData happend
    exact ⟨.inr ⟨_, rfl, happends.ids⟩, .inl happends.appended, happends.keeps⟩
  | _ => exact ⟨.inl rfl, .inl rfl, fun id hid => hid⟩

theorem PartitionSound.completedAnswer {receipt : Receipt}
    (hrequest : d.request = some request) (hstatus : request.status = .completed receipt) :
    ∃ e, d.appended = [e] ∧
      AnswerCopy p e (completedAnswer d request.conversationId receipt) ∧
        (e.assistantMessageId ∈ d.evicted →
          completedAnswer d request.conversationId receipt =
            (e.assistantMessage p).receipt.message) := by
  obtain ⟨e, hanswered, rfl, hkept⟩ := h.answered request receipt hrequest hstatus
  refine ⟨e, hanswered, ?_, ?_⟩
  · unfold Conversations.completedAnswer
    cases hfind : (((d.threads.get? request.conversationId).map fun t => t.row.messages).getD
        []).find? fun m => m.id = (e.assistantMessage p).receipt.messageId with
    | none => exact answerCopy_receipt p e
    | some m =>
      have hid := find?_some hfind
      rw [decide_eq_true_eq] at hid
      have hmem := mem_of_find?_eq_some hfind
      cases hthread : d.threads.get? request.conversationId with
      | none =>
        rw [hthread] at hmem
        cases hmem
      | some t =>
        rw [hthread] at hmem
        exact hkept.copies _ t hthread m hmem hid
  · intro hevicted
    unfold Conversations.completedAnswer
    rw [find?_eq_none.mpr]
    · rfl
    · intro m hm hid
      rw [decide_eq_true_eq] at hid
      cases hthread : d.threads.get? request.conversationId with
      | none =>
        rw [hthread] at hm
        cases hm
      | some t =>
        rw [hthread] at hm
        have hmem := id_mem_ids hm
        rw [hid] at hmem
        exact hkept.evicted hevicted _ t hthread hmem

/-- **What a call returns as the answer is a copy of the one exchange that was appended.** -/
theorem PartitionSound.returned {answer : Message} {appended : Bool}
    (hchanged : Changed enc p d op (.completed answer appended) next) (hnew : NewIds op d) :
    ∃ e, next.appended = [e] ∧ AnswerCopy p e answer := by
  cases hchanged with
  | replayed hrequest hstatus =>
    obtain ⟨e, hanswered, hcopy, -⟩ := h.completedAnswer hrequest hstatus
    exact ⟨e, hanswered, hcopy⟩
  | @answered call request request' ended running next stored answer hrequest hstatus hfingerprint
      hconversation htoken happend hanswer hconversation' hstatus' =>
      obtain ⟨hne, -, hid⟩ := hnew _ rfl
      rw [find?_saved h (appends_of_appendToData happend) hne hid] at hanswer
      cases hanswer
      refine ⟨call.exchange, ?_, answerCopy_saved p _⟩
      dsimp only
      rw [h.isOpen (open_of_inProgress hrequest hstatus), nil_append]

end Sound

end AgenticKibana.Conversations
