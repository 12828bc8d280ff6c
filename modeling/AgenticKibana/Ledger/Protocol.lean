import AgenticKibana.Library.JsonText
import AgenticKibana.Library.Sha256
import AgenticKibana.Library.Machine

/-!
# Ledger claims and keyed appends

A keyed row of a rolling ledger is reserved by a claim, a document of an index that does not roll:
it keeps the first writer's payload as canonical JSON text, the state of the append, and the lease
of the writer that may create the row.  Any number of writers append under one key, with one
program point for each await, while the write alias may roll over and time may pass; a request may
fail before it reaches the store or be answered by an error after it was carried out.

Two ghosts stand at the point before the create: until when the writer was told it owns the lease,
and whether a row existed then.
-/

namespace AgenticKibana.Ledger

open AgenticKibana.Library

abbrev Members := List (String × Json)

/-- A payload, as a writer hands it over: no object in it has a key twice. -/
structure Payload where
  members : Members
  valid : (Json.obj members).valid = true

def canonicalJson (ms : Members) : List Char := (Json.obj ms).dumps

def sorted (ms : Members) : Members := Json.byKey (Json.sortMembers ms)

theorem sortKeys_members (ms : Members) : (Json.obj ms).sortKeys = .obj (sorted ms) := by
  rw [Json.sortKeys, sorted]

/-- **The canonical text is read back** as the payload with its keys in order. -/
theorem loads_canonicalJson {ms : Members} (h : (Json.obj ms).valid = true) :
    Json.loads (canonicalJson ms) = some (.obj (sorted ms)) := by
  rw [canonicalJson, Json.loads_dumps h, sortKeys_members]

@[simp] theorem canonicalJson_sorted (ms : Members) :
    canonicalJson (sorted ms) = canonicalJson ms := by
  rw [canonicalJson, ← sortKeys_members, Json.dumps_sortKeys, canonicalJson]

inductive LedgerError where
  | eventCollision
  | claimUnreadable
  | claimCollision
  | payloadCorrupt
  | payloadInvalid
  | payloadNotObject
  | claimDisappeared
  | payloadChanged
  | multipleIndices
  | inProgress
  | projectionUnconfirmed
  | projectionCollision
  | notFinalised
  | backend
deriving DecidableEq, Repr

/-! ### Claims -/

structure Key where
  scope : String
  logicalId : String
  scope_ne : scope ≠ ""
  logicalId_ne : logicalId ≠ ""

inductive ClaimState where
  | pending
  | committed
deriving DecidableEq, Repr

structure Claim where
  kind : String
  schema : Nat
  scope : String
  logicalId : String
  payloadJson : List Char
  payloadSha256 : String
  state : ClaimState
  projectionIndex : Option Nat
  projectionOwner : Option Nat
  leaseUntil : Nat
  rev : Nat
deriving DecidableEq

/-- `_CLAIM_LEASE_SECONDS`. -/
def claimLease : Nat := 60 * 1000

def newClaim (key : Key) (payload : Members) (owner now : Nat) : Claim where
  kind := "ledger_claim"
  schema := 1
  scope := key.scope
  logicalId := key.logicalId
  payloadJson := canonicalJson payload
  payloadSha256 := Sha256.hexdigest (canonicalJson payload)
  state := .pending
  projectionIndex := none
  projectionOwner := some owner
  leaseUntil := now + claimLease
  rev := 0

def claimPayload (key : Key) (claim : Claim) : Except LedgerError Members :=
  if claim.kind ≠ "ledger_claim" ∨ claim.schema ≠ 1 ∨ claim.scope ≠ key.scope ∨
      claim.logicalId ≠ key.logicalId then
    .error .claimCollision
  else if claim.payloadSha256 ≠ Sha256.hexdigest claim.payloadJson then .error .payloadCorrupt
  else
    match Json.loads claim.payloadJson with
    | none => .error .payloadInvalid
    | some (.obj ms) => .ok ms
    | some _ => .error .payloadNotObject

def semantic (metadata : List String) (ms : Members) : Json :=
  .obj (ms.filter fun m => m.1 ∉ metadata)

def validateRetry (reject : Bool) (metadata : List String) (incoming authoritative : Members) :
    Except LedgerError Unit :=
  if reject && !Json.pyEq (semantic metadata incoming) (semantic metadata authoritative) then
    .error .eventCollision
  else .ok ()

theorem validateRetry_eq_ok {reject : Bool} {metadata : List String}
    {incoming authoritative : Members} :
    validateRetry reject metadata incoming authoritative = .ok () ↔ (reject = true →
      Json.pyEq (semantic metadata incoming) (semantic metadata authoritative) = true) := by
  unfold validateRetry
  cases reject <;>
    cases Json.pyEq (semantic metadata incoming) (semantic metadata authoritative) <;> simp

namespace Claim

def leased (claim : Claim) (owner now : Nat) : Claim :=
  { claim with
    projectionOwner := some owner, leaseUntil := now + claimLease, rev := claim.rev + 1 }

def released (claim : Claim) : Claim :=
  { claim with projectionOwner := none, leaseUntil := 0, rev := claim.rev + 1 }

def committed (claim : Claim) (index : Nat) : Claim :=
  { claim with
    state := .committed, projectionIndex := some index, projectionOwner := none, leaseUntil := 0
    rev := claim.rev + 1 }

def settled (claim : Claim) (index : Nat) : Bool :=
  claim.state = .committed && claim.projectionIndex = some index && claim.projectionOwner.isNone &&
    claim.leaseUntil = 0

/-- A claim on the key, for the payload `ms`. -/
structure Sound (key : Key) (ms : Members) (claim : Claim) : Prop where
  kind : claim.kind = "ledger_claim"
  schema : claim.schema = 1
  scope : claim.scope = key.scope
  logicalId : claim.logicalId = key.logicalId
  payloadJson : claim.payloadJson = canonicalJson ms
  payloadSha256 : claim.payloadSha256 = Sha256.hexdigest (canonicalJson ms)

variable {key : Key} {ms : Members} {claim : Claim}

theorem sound_newClaim (key : Key) (ms : Members) (owner now : Nat) :
    Sound key ms (newClaim key ms owner now) :=
  ⟨rfl, rfl, rfl, rfl, rfl, rfl⟩

theorem Sound.leased (h : Sound key ms claim) (owner now : Nat) :
    Sound key ms (claim.leased owner now) :=
  ⟨h.kind, h.schema, h.scope, h.logicalId, h.payloadJson, h.payloadSha256⟩

theorem Sound.released (h : Sound key ms claim) : Sound key ms claim.released :=
  ⟨h.kind, h.schema, h.scope, h.logicalId, h.payloadJson, h.payloadSha256⟩

theorem Sound.committed (h : Sound key ms claim) (index : Nat) :
    Sound key ms (claim.committed index) :=
  ⟨h.kind, h.schema, h.scope, h.logicalId, h.payloadJson, h.payloadSha256⟩

/-- **The payload of a claim is recovered**, with its keys in order. -/
theorem Sound.claimPayload (h : Sound key ms claim) (hvalid : (Json.obj ms).valid = true) :
    claimPayload key claim = .ok (sorted ms) := by
  have hheader : ¬ (claim.kind ≠ "ledger_claim" ∨ claim.schema ≠ 1 ∨ claim.scope ≠ key.scope ∨
      claim.logicalId ≠ key.logicalId) := by
    simp [h.kind, h.schema, h.scope, h.logicalId]
  have hdigest : ¬ claim.payloadSha256 ≠ Sha256.hexdigest claim.payloadJson := by
    rw [h.payloadJson, h.payloadSha256]
    exact fun hne => hne rfl
  unfold Ledger.claimPayload
  rw [if_neg hheader, if_neg hdigest, h.payloadJson, loads_canonicalJson hvalid]

end Claim

/-! ### The calls -/

structure Row where
  index : Nat
  payload : Members
deriving DecidableEq

/-- What the backend holds for one key, and the clock. -/
structure Store where
  now : Nat
  writeIndex : Nat
  rows : List Row
  claim : Option Claim

namespace Store

/-- `_find_projection`. -/
def find (s : Store) : Except LedgerError (Option Row) :=
  match s.rows with
  | [] => .ok none
  | [row] => .ok (some row)
  | _ => .error .multipleIndices

/-- `create_doc_strict` of the claim. -/
def createClaim (s : Store) (claim : Claim) : Store :=
  if s.claim.isSome then s else { s with claim := some claim }

/-- `create_doc_strict` of the row, through the write alias. -/
def createRow (s : Store) (payload : Members) : Store :=
  if s.rows.any (·.index = s.writeIndex) then s
  else { s with rows := s.rows ++ [⟨s.writeIndex, payload⟩] }

/-- The revision `compare_and_set_doc` compares with; an absent document has revision 0. -/
def revision (s : Store) : Nat := (s.claim.map Claim.rev).getD 0

/-- `compare_and_set_doc` of the claim. -/
def compareAndSet (s : Store) (claim : Claim) (expected : Nat) : Store :=
  if s.revision = expected then { s with claim := some claim } else s

end Store

/-! ### Writers -/

structure Request where
  payload : Payload
  reject : Bool
  metadata : List String

inductive Pc where
  /-- The first search of the read pattern. -/
  | searching
  | claiming (authoritative : Members)
  | reading
  /-- The search and the claim read of `_projection_or_lease`. -/
  | waiting (claimed : Members) (attempt : Nat)
  | checking (claimed : Members) (attempt : Nat)
  | leasing (claimed : Members) (attempt : Nat) (current : Claim) (now : Nat)
  | creating (claimed : Members) (told : Nat) (late : Bool)
  | confirming (claimed : Members)
  | finalising (claimed : Members) (index attempt : Nat)
  | committing (claimed : Members) (index attempt : Nat) (current : Claim)
  | releasing (attempt : Nat) (error : LedgerError)
  | unleasing (attempt : Nat) (current : Claim) (error : LedgerError)
  | returned
  | raised (error : LedgerError)
  | stopped
deriving DecidableEq

/-- `_CLAIM_WAIT_ATTEMPTS` and `_CLAIM_FINALISE_ATTEMPTS`. -/
def waitAttempts : Nat := 20

def finaliseAttempts : Nat := 8

namespace Pc

/-- An exception inside the `try` releases the lease first. -/
def failed (error : LedgerError) : Pc → Pc
  | .searching | .claiming _ | .reading => .raised error
  | .waiting _ _ | .checking _ _ | .leasing _ _ _ _ | .creating _ _ _ | .confirming _
  | .finalising _ _ _ | .committing _ _ _ _ => .releasing 0 error
  | .releasing _ error | .unleasing _ _ error => .raised error
  | pc => pc

def active : Pc → Bool
  | .returned | .raised _ | .stopped => false
  | _ => true

def waitAgain (claimed : Members) (attempt : Nat) : Pc :=
  if attempt + 1 < waitAttempts then .waiting claimed (attempt + 1) else .releasing 0 .inProgress

def found (claimed : Members) (row : Row) : Pc :=
  if canonicalJson row.payload = canonicalJson claimed then .finalising claimed row.index 0
  else .releasing 0 .projectionCollision

/-- `_validate_retry` of the claimed payload, then the `try`. -/
def validated (key : Key) (r : Request) (claim : Claim) : Pc :=
  match claimPayload key claim with
  | .error e => .raised e
  | .ok claimed =>
    match validateRetry r.reject r.metadata r.payload.members claimed with
    | .error e => .raised e
    | .ok () => .waiting claimed 0

def effect (key : Key) (c : Nat) (s : Store) : Pc → Store
  | .claiming authoritative => s.createClaim (newClaim key authoritative c s.now)
  | .leasing _ _ current now => s.compareAndSet (current.leased c now) current.rev
  | .creating claimed _ _ => s.createRow claimed
  | .committing _ index _ current => s.compareAndSet (current.committed index) current.rev
  | .unleasing _ current _ => s.compareAndSet current.released current.rev
  | _ => s

/-- Where the call stands when its request has been answered; `s` is the store before. -/
def next (key : Key) (c : Nat) (r : Request) (s : Store) : Pc → Pc
  | .searching =>
    match s.find with
    | .error e => .raised e
    | .ok none => .claiming r.payload.members
    | .ok (some row) =>
      match validateRetry r.reject r.metadata r.payload.members row.payload with
      | .error e => .raised e
      | .ok () => .claiming row.payload
  | .claiming authoritative =>
    if s.claim.isSome then .reading
    else validated key r (newClaim key authoritative c s.now)
  | .reading =>
    match s.claim with
    | none => .raised .claimUnreadable
    | some claim => validated key r claim
  | .waiting claimed attempt =>
    match s.find with
    | .error e => .releasing 0 e
    | .ok none => .checking claimed attempt
    | .ok (some row) => found claimed row
  | .checking claimed attempt =>
    match s.claim with
    | none => .releasing 0 .claimDisappeared
    | some current =>
      match claimPayload key current with
      | .error e => .releasing 0 e
      | .ok payload =>
        if canonicalJson payload ≠ canonicalJson claimed then .releasing 0 .payloadChanged
        else if current.projectionOwner = some c ∧ s.now < current.leaseUntil then
          .creating claimed current.leaseUntil (s.rows ≠ [])
        else if current.projectionOwner = none ∨ current.leaseUntil ≤ s.now then
          .leasing claimed attempt current s.now
        else waitAgain claimed attempt
  | .leasing claimed attempt current now =>
    if s.revision = current.rev then .creating claimed (now + claimLease) (s.rows ≠ [])
    else waitAgain claimed attempt
  | .creating claimed _ _ => .confirming claimed
  | .confirming claimed =>
    match s.find with
    | .error e => .releasing 0 e
    | .ok none => .releasing 0 .projectionUnconfirmed
    | .ok (some row) => found claimed row
  | .finalising claimed index attempt =>
    match s.claim with
    | none => .releasing 0 .claimDisappeared
    | some current =>
      match claimPayload key current with
      | .error e => .releasing 0 e
      | .ok payload =>
        if canonicalJson payload ≠ canonicalJson claimed then .releasing 0 .payloadChanged
        else if current.settled index then .returned
        else .committing claimed index attempt current
  | .committing claimed index attempt current =>
    if s.revision = current.rev then .returned
    else if attempt + 1 < finaliseAttempts then .finalising claimed index (attempt + 1)
    else .releasing 0 .notFinalised
  | .releasing attempt error =>
    match s.claim with
    | none => .raised error
    | some current =>
      match claimPayload key current with
      | .error _ => .raised error
      | .ok _ =>
        if current.projectionOwner = some c then .unleasing attempt current error
        else .raised error
  | .unleasing attempt current error =>
    if s.revision = current.rev then .raised error
    else if attempt + 1 < finaliseAttempts then .releasing (attempt + 1) error
    else .raised error
  | pc => pc

end Pc

/-- How a request ends: answered, lost on its way, answered by an error after it was
carried out, or carried out while its writer stops. -/
inductive Outcome where
  | answered
  | lost
  | unseen
  | last
deriving DecidableEq, Repr

inductive Event where
  | tick (millis : Nat)
  | rollover
  | call (c : Nat) (r : Request)
  | request (c : Nat) (outcome : Outcome)
  | stop (c : Nat)

structure Writer where
  request : Request
  pc : Pc

structure Table where
  store : Store
  writer : Nat → Option Writer

namespace Table

def setPc (s : Table) (c : Nat) (w : Writer) (pc : Pc) : Table :=
  { s with writer := Function.update s.writer c (some { w with pc := pc }) }

def step (key : Key) (s : Table) : Event → Option Table
  | .tick millis => some { s with store := { s.store with now := s.store.now + millis } }
  | .rollover => some { s with store := { s.store with writeIndex := s.store.writeIndex + 1 } }
  | .call c r =>
    match s.writer c with
    | some _ => none
    | none => some { s with writer := Function.update s.writer c (some ⟨r, .searching⟩) }
  | .request c outcome =>
    match s.writer c with
    | none => none
    | some w =>
      if w.pc.active then
        let carried := { s with store := w.pc.effect key c s.store }
        match outcome with
        | .answered => some (carried.setPc c w (w.pc.next key c w.request s.store))
        | .lost => some (s.setPc c w (w.pc.failed .backend))
        | .unseen => some (carried.setPc c w (w.pc.failed .backend))
        | .last => some (carried.setPc c w .stopped)
      else none
  | .stop c =>
    match s.writer c with
    | none => none
    | some w => if w.pc.active then some (s.setPc c w .stopped) else none

end Table

structure Fresh (s : Table) : Prop where
  claim : s.store.claim = none
  rows : s.store.rows.length ≤ 1
  valid : ∀ row ∈ s.store.rows, (Json.obj row.payload).valid = true
  writer : ∀ c, s.writer c = none

def ledgerMachine (key : Key) : Machine Table Event where
  start := Fresh
  step := Table.step key

end AgenticKibana.Ledger
