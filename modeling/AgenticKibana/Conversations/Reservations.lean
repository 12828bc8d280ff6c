import AgenticKibana.Conversations.Replay
import AgenticKibana.Library.CasCell
import Mathlib.Data.List.Sort

/-!
# Reservations of chat requests

The worker that answers a chat request first reserves its idempotency key in the partition of its
user: the record gets a lease and a token, and a heartbeat in another document moves the lease
forward.  With its token the worker appends the exchange and turns the record into a receipt, from
which the same answer is given again.

The partition is followed from where one key has no record, as long as the record is not dropped
for another key or with its conversation.
-/

namespace AgenticKibana.Conversations

open AgenticKibana.Library

/-- A conversation, with the ids of the messages in its archive; times are in microseconds. -/
structure Thread where
  row : Row
  archived : List Text := []
  updatedAt : Int
  pinned : Bool := false

def Thread.ids (t : Thread) : List Text := t.archived ++ t.row.messages.map Message.id

abbrev Threads := Dict Text Thread

/-- A receipt keeps what its answer can be given again from. -/
structure Receipt where
  messageId : Text
  content : Text
  createdAt : Text
  response : Option Stored

inductive RequestStatus where
  | inProgress (ended : Bool)
  | completed (receipt : Receipt)

structure Request where
  fingerprint : Text
  conversationId : Text
  updatedAt : Int
  leaseToken : Text
  leaseSeconds : Int
  status : RequestStatus

structure Partition where
  threads : Threads
  request : Option Request := none
  appended : List Exchange := []
  ids : List Text
  evicted : List Text := []

def Partition.of (threads : Threads) : Partition where
  threads := threads
  ids := threads.values.flatMap Thread.ids

structure LeaseEntry where
  token : Text
  fingerprint : Text
  renewedAt : Int
  ttl : Int
  deriving DecidableEq

/-- `IDEMPOTENCY_PENDING_TTL_SECONDS` -/
def pendingTtl : Int := 600 * 1000000

/-- `MAX_IDEMPOTENCY_LEASE_SECONDS` -/
def maxLease : Int := 7200 * 1000000

def leaseTtl : Option Int → Int
  | none => pendingTtl
  | some seconds => min (max seconds pendingTtl) maxLease

def isStale (clock since ttl : Int) : Bool := leaseTtl (some ttl) ≤ clock - since

def leaseEntry (heartbeat : Option LeaseEntry) (request : Request) : Option LeaseEntry :=
  heartbeat.filter fun entry => request.leaseToken ≠ [] ∧ entry.token = request.leaseToken

def leaseHeld (clock : Int) (request : Request) (heartbeat : Option LeaseEntry) : Bool :=
  match request.status with
  | .completed _ => false
  | .inProgress _ =>
    !isStale clock request.updatedAt request.leaseSeconds ||
      (leaseEntry heartbeat request).any fun entry => !isStale clock entry.renewedAt entry.ttl

/-! ### Appending -/

/-- `MAX_CONVERSATIONS_PER_USER` -/
def maxConversations : Nat := 50

def newerFirst (a b : Text × Thread) : Prop :=
  b.2.updatedAt < a.2.updatedAt ∨ (b.2.updatedAt = a.2.updatedAt ∧ ¬ a.1 < b.1)

instance (a b : Text × Thread) : Decidable (newerFirst a b) := by
  unfold newerFirst
  infer_instance

/-- Retention: the newest conversations stay, and those that are pinned or in which a turn is still
running. -/
def retained (running : List Text) (threads : Threads) : Threads :=
  let exempt (cid : Text) (t : Thread) : Bool := t.pinned || running.contains cid
  let evictable := threads.entries.filter fun e => !exempt e.1 e.2
  if evictable.length ≤ maxConversations then threads
  else
    let keep := ((evictable.insertionSort newerFirst).take maxConversations).map Prod.fst
    threads.filter fun cid t => keep.contains cid || exempt cid t

section Append

variable (enc : Encoding) (p : Presentations)

def newThread (now : Int) : Thread where
  row := ⟨[], 0, none⟩
  updatedAt := now

def Thread.answer (t : Thread) (e : Exchange) (now : Int) : Thread :=
  { t with
    row := { t.row with
      messages := trimMessages enc (t.row.messages ++ [e.userMessage, e.assistantMessage p]) }
    updatedAt := now }

/-- `_append_to_data`, with the conversation; nothing where there is no such conversation. -/
def appendToData (d : Partition) (conversationId : Text) (requireExisting : Bool) (e : Exchange)
    (now : Int) (running : List Text) : Option (Partition × Thread) :=
  let existing := d.threads.get? conversationId
  if requireExisting ∧ existing.isNone then none
  else
    let stored := (existing.getD (newThread now)).answer enc p e now
    let threads := d.threads.set conversationId stored
    let kept := retained (running.filter (· ≠ conversationId)) threads
    let removed := threads.filter fun cid _ => !kept.contains cid
    some
      ({ d with
          threads := kept
          ids := d.ids ++ [e.userMessageId, e.assistantMessageId]
          evicted := d.evicted ++ removed.values.flatMap Thread.ids }, stored)

end Append

def maxReceiptContentChars : Nat := 2000

def receiptResponse (stored : Option Stored) (contentClipped : Bool) : Option Stored :=
  stored.map fun stored =>
    let backed := match stored.get? exchangeMarker with
      | some (.bool true) => true
      | _ => false
    let scalars := stored.filter fun key value =>
      storedScalarKeys.contains key && !(backed && key == "query") && isScalar value
    let scalars :=
      if contentClipped || stored.contains presentationKey then
        scalars.set "truncated" (.bool true)
      else scalars
    if backed then (scalars.set exchangeMarker (.bool true)).set "truncated" (.bool true)
    else scalars

def Message.receipt (m : Message) : Receipt :=
  let content := clip m.content maxReceiptContentChars
  ⟨m.id, content.1, m.createdAt, receiptResponse m.response content.2⟩

/-- `_receipt_message` -/
def Receipt.message (r : Receipt) : Message where
  id := r.messageId
  role := .assistant
  content := r.content
  createdAt := r.createdAt
  response := r.response

/-- `_completed_reservation`: the answer in its conversation, or what the receipt keeps of it. -/
def completedAnswer (d : Partition) (conversationId : Text) (r : Receipt) : Message :=
  (((d.threads.get? conversationId).map fun t => t.row.messages).getD []).find?
    (fun m => m.id = r.messageId) |>.getD r.message

/-! ### The calls -/

/-- A call of `reserve_exchange`, with what it has read and drawn before its compare-and-set. -/
structure ReserveCall where
  fingerprint : Text
  conversationId : Option Text
  newConversationId : Text
  leaseSeconds : Option Int
  now : Int
  heartbeat : Option LeaseEntry

/-- A call of `complete_exchange`. -/
structure CompleteCall where
  fingerprint : Text
  conversationId : Text
  leaseToken : Text
  existing : Bool
  now : Int
  exchange : Exchange

/-- The calls for the key, a save under another key or none, and what a run of `_maybe_archive`
writes at last. -/
inductive RequestOp where
  | reserve (call : ReserveCall)
  | complete (call : CompleteCall)
  | abort (fingerprint leaseToken : Text)
  | endReservation (fingerprint leaseToken : Text) (now : Int)
  | append (conversationId : Text) (existing : Bool) (now : Int) (e : Exchange)
  | archive (conversationId : Text) (a : Archiver)

/-- What an attempt finds besides the partition: the time, a new token, whether the partition has
too many other records even when they are pruned, and in which conversations they are running. -/
structure Attempt where
  clock : Int
  leaseToken : Text
  full : Bool := false
  running : List Text := []

/-- Why nothing is written; the last is no exception. -/
inductive Refusal where
  | conflict
  | missing
  | inProgress
  | failed
  | busy
  | unchanged
  deriving DecidableEq

inductive Outcome where
  | reserved (conversationId leaseToken : Text)
  | completed (answer : Message) (appended : Bool)
  | saved (found : Bool)
  | done

def Request.reclaimed (request : Request) (now : Int) (leaseToken : Text) (leaseSeconds : Int) :
    Request :=
  { request with
    updatedAt := now
    status := .inProgress false
    leaseToken := leaseToken
    leaseSeconds := leaseSeconds }

/-- `_change` of `reserve_exchange` -/
def reserveChange (call : ReserveCall) (attempt : Attempt) (d : Partition) :
    Except Refusal (Outcome × Partition) :=
  match d.request with
  | some request =>
    if request.fingerprint ≠ call.fingerprint then .error .conflict
    else
      match request.status with
      | .completed receipt =>
        .ok (.completed (completedAnswer d request.conversationId receipt) false, d)
      | .inProgress ended =>
        if call.conversationId.isSome ∧ d.threads.contains request.conversationId = false then
          .error .missing
        else if leaseHeld attempt.clock request call.heartbeat then
          .error (if ended then .failed else .inProgress)
        else
          let reclaimed := request.reclaimed call.now attempt.leaseToken
            (leaseTtl call.leaseSeconds)
          .ok (.reserved request.conversationId attempt.leaseToken,
            { d with request := some reclaimed })
  | none =>
    if call.conversationId.any fun cid => !d.threads.contains cid then .error .missing
    else if attempt.full then .error .busy
    else
      let conversationId := call.conversationId.getD call.newConversationId
      let request := ⟨call.fingerprint, conversationId, call.now, attempt.leaseToken,
        leaseTtl call.leaseSeconds, .inProgress false⟩
      .ok (.reserved conversationId attempt.leaseToken, { d with request := some request })

/-- The condition of `abort_exchange` and `end_reservation`. -/
def ownedBy (request : Option Request) (fingerprint leaseToken : Text) : Option Request :=
  request.filter fun request =>
    (request.status matches .inProgress _) && decide (request.fingerprint = fingerprint) &&
      decide (request.leaseToken = leaseToken)

/-- `_change` of `abort_exchange` -/
def abortChange (fingerprint leaseToken : Text) (d : Partition) :
    Except Refusal (Outcome × Partition) :=
  match ownedBy d.request fingerprint leaseToken with
  | none => .error .unchanged
  | some _ => .ok (.done, { d with request := none })

/-- `_change` of `end_reservation` -/
def endChange (fingerprint leaseToken : Text) (now : Int) (d : Partition) :
    Except Refusal (Outcome × Partition) :=
  match ownedBy d.request fingerprint leaseToken with
  | none => .error .unchanged
  | some request =>
    .ok (.done,
      { d with request := some { request with updatedAt := now, status := .inProgress true } })

def Thread.archive (t : Thread) (a : Archiver) : Thread :=
  { t with
    row := recordArchive t.row a
    archived := t.archived ++ (t.row.messages.take a.moved.length).map Message.id }

/-- `_apply` of `_maybe_archive` -/
def archiveChange (conversationId : Text) (a : Archiver) (d : Partition) :
    Except Refusal (Outcome × Partition) :=
  match d.threads.get? conversationId with
  | none => .error .unchanged
  | some t =>
    let ids := (t.row.messages.take a.moved.length).map Message.id
    if t.row.count ≠ a.count ∨ ids ≠ a.ids then .error .unchanged
    else
      .ok (.done, { d with threads := d.threads.set conversationId (t.archive a) })

section Calls

variable (enc : Encoding) (p : Presentations)

/-- `_change` of `complete_exchange` -/
def completeChange (call : CompleteCall) (attempt : Attempt) (d : Partition) :
    Except Refusal (Outcome × Partition) :=
  match d.request with
  | none =>
    if call.existing ∧ d.threads.contains call.conversationId = false then .error .missing
    else .error .conflict
  | some request =>
    if request.fingerprint ≠ call.fingerprint then .error .conflict
    else if request.conversationId ≠ call.conversationId then .error .conflict
    else
      match request.status with
      | .completed receipt =>
        .ok (.completed (completedAnswer d call.conversationId receipt) false, d)
      | .inProgress _ =>
        if request.leaseToken ≠ call.leaseToken then .error .inProgress
        else
          match appendToData enc p d call.conversationId call.existing call.exchange call.now
              attempt.running with
          | none => .error .missing
          | some (next, stored) =>
            match stored.row.messages.find? fun m =>
                m.id = call.exchange.assistantMessageId with
            -- not reached: the conversation has the message
            | none => .error .missing
            | some answer =>
              let request' :=
                { request with updatedAt := call.now, status := .completed answer.receipt }
              .ok (.completed answer true,
                { next with
                  request := some request'
                  appended := d.appended ++ [call.exchange] })

/-- `_change` of `append_exchange`; without its conversation it writes what it has read. -/
def appendChange (conversationId : Text) (existing : Bool) (now : Int) (e : Exchange)
    (attempt : Attempt) (d : Partition) : Except Refusal (Outcome × Partition) :=
  match appendToData enc p d conversationId existing e now attempt.running with
  | none => .ok (.saved false, d)
  | some (next, _) => .ok (.saved true, next)

def requestChange (attempt : Attempt) (d : Partition) :
    RequestOp → Except Refusal (Outcome × Partition)
  | .reserve call => reserveChange call attempt d
  | .complete call => completeChange enc p call attempt d
  | .abort fingerprint leaseToken => abortChange fingerprint leaseToken d
  | .endReservation fingerprint leaseToken now => endChange fingerprint leaseToken now d
  | .append conversationId existing now e =>
      appendChange enc p conversationId existing now e attempt d
  | .archive conversationId a => archiveChange conversationId a d

def casRetries : Nat := 8

/-- The partition under `_strict_mutate`. -/
def requests (threads : Threads) : CasCell.Interface where
  Doc := Partition
  Op := RequestOp
  Env := Attempt
  Val := Outcome
  Err := Refusal
  Query := Empty
  Answer := Empty
  init := Partition.of threads
  attempts := casRetries
  admissible _ _ _ := true
  change op attempt d := requestChange enc p attempt d op
  answer q _ _ := q

end Calls

/-! ### The workers -/

/-- A call of `renew_exchange` that found no heartbeat, and whether the partition has told it that
the reservation is still its own. -/
structure Renewal where
  fingerprint : Text
  leaseToken : Text
  now : Int
  ttl : Int
  verified : Bool := false

/-- The partition and its workers, the documents of the exchanges, and the heartbeat.  A worker that
saves keeps the exchange whose document it has written; the ids that were drawn are kept too. -/
structure ChatStore (enc : Encoding) (p : Presentations) (threads : Threads) where
  cell : CasCell.State (requests enc p threads)
  docs : ExchangeDocs := fun _ => none
  drafts : Nat → Option Exchange := fun _ => none
  used : List Text
  heartbeat : Option LeaseEntry := none
  renewals : List Renewal := []

def RequestOp.exchange : RequestOp → Option Exchange
  | .complete call => some call.exchange
  | .append _ _ _ e => some e
  | _ => none

def RequestOp.heartbeat : RequestOp → Option (Option LeaseEntry)
  | .reserve call => some call.heartbeat
  | _ => none

def RequestOp.fingerprint : RequestOp → Option Text
  | .reserve call => some call.fingerprint
  | .complete call => some call.fingerprint
  | .abort fingerprint _ => some fingerprint
  | .endReservation fingerprint _ _ => some fingerprint
  | .append .. => none
  | .archive .. => none

inductive ChatMove (I : CasCell.Interface) where
  | begin (c : Nat) (op : RequestOp)
  | cell (e : CasCell.Event I)
  | blank (c : Nat)
  | blankEvicted (id : Text)
  | renew (r : Renewal)
  | verify (i : Nat)
  | restore (i : Nat)
  | dropHeartbeat

section Moves

variable {enc : Encoding} {p : Presentations} {threads : Threads}

/-- Whether a worker blanks the document it has written: its call was refused, or it has not
appended the exchange. -/
def blanks : CasCell.Phase (requests enc p threads) → Bool
  | .raised (.refused _) => true
  | .returned (.completed _ false) => true
  | .returned (.saved false) => true
  | _ => false

/-- A call begins: a reservation reads the heartbeat, and a call that saves draws new ids and writes
the document of the exchange. -/
def beginCall (w : ChatStore enc p threads) (c : Nat) (op : RequestOp) :
    Option (ChatStore enc p threads) :=
  if op.heartbeat.all fun heartbeat => decide (heartbeat = w.heartbeat) then
    match op.exchange with
    | none =>
      (CasCell.step w.cell (.call c op)).map fun cell =>
        { w with cell := cell, drafts := Function.update w.drafts c none }
    | some e =>
      if e.userMessageId ≠ e.assistantMessageId ∧ e.userMessageId ∉ w.used ∧
          e.assistantMessageId ∉ w.used then
        (CasCell.step w.cell (.call c op)).map fun cell =>
          { w with
            cell := cell
            docs := Function.update w.docs e.assistantMessageId (some (e.record p))
            drafts := Function.update w.drafts c (some e)
            used := w.used ++ [e.userMessageId, e.assistantMessageId] }
      else none
  else none

/-- `_renew`, and what `renew_exchange` does where it finds no heartbeat. -/
def renewHeartbeat (w : ChatStore enc p threads) (r : Renewal) : ChatStore enc p threads :=
  match w.heartbeat with
  | none => { w with renewals := w.renewals ++ [{ r with verified := false }] }
  | some entry =>
    if entry.token ≠ r.leaseToken ∨ entry.fingerprint ≠ r.fingerprint then w
    else { w with heartbeat := some { entry with renewedAt := r.now, ttl := r.ttl } }

def Renewal.reserved (r : Renewal) (request : Option Request) : Bool :=
  request.any fun request =>
    (request.status matches .inProgress false) && decide (request.fingerprint = r.fingerprint) &&
      decide (request.leaseToken = r.leaseToken)

/-- `_restore` -/
def Renewal.entry (r : Renewal) : LeaseEntry := ⟨r.leaseToken, r.fingerprint, r.now, r.ttl⟩

/-- Calls begin by `begin`; the heartbeat is dropped by `_mark_answered`, by `_end_lease`, and when
it is old. -/
def chatStep (w : ChatStore enc p threads) :
    ChatMove (requests enc p threads) → Option (ChatStore enc p threads)
  | .begin c op => beginCall w c op
  | .cell (.call _ _) => none
  | .cell e => (CasCell.step w.cell e).map fun cell => { w with cell := cell }
  | .blank c =>
    (w.drafts c).bind fun e =>
      if blanks (w.cell.phase c) then
        some { w with
          docs := Function.update w.docs e.assistantMessageId none
          drafts := Function.update w.drafts c none }
      else none
  | .blankEvicted id =>
    if id ∈ w.cell.doc.evicted then some { w with docs := Function.update w.docs id none }
    else none
  | .renew r => some (renewHeartbeat w r)
  | .verify i =>
    w.renewals[i]?.bind fun r =>
      if r.reserved w.cell.doc.request then
        some { w with renewals := w.renewals.set i { r with verified := true } }
      else none
  | .restore i =>
    w.renewals[i]?.bind fun r =>
      if r.verified then
        some { w with heartbeat := some r.entry, renewals := w.renewals.eraseIdx i }
      else none
  | .dropHeartbeat => some { w with heartbeat := none }

end Moves

def chatMachine (enc : Encoding) (p : Presentations) (threads : Threads) :
    Machine (ChatStore enc p threads) (ChatMove (requests enc p threads)) where
  start w := (CasCell.cell (requests enc p threads)).start w.cell ∧
    w.used = (Partition.of threads).ids ∧ ∀ c, w.drafts c = none
  step := chatStep

def knownDocs (p : Presentations) (docs : ExchangeDocs) : Option Exchange → ExchangeDocs
  | some e => Function.update docs e.assistantMessageId (some (e.record p))
  | none => docs

/-- `_finish_reservation`: an answer with its whole text, from the exchange that the worker has
written itself, or from its document. -/
def finishReservation (p : Presentations) (docs : ExchangeDocs) (known : Option Exchange)
    (answer : Message) : Message :=
  decodedMessage p (hydrated (knownDocs p docs known) answer none)

end AgenticKibana.Conversations
