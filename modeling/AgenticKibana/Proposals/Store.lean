import AgenticKibana.Jobs.Model
import AgenticKibana.Library.CasCell

/-!
# The proposal store

The proposals are one list in one document, and every decision on one of them is a
change of that list under compare-and-set (`_mutate_strict`).  A change never refuses: it
reports what it found, and writes the list back.

A timestamp that is compared with the clock is kept as the instant it parses to, and is
`none` where it is absent or no timestamp; one that is only stored is text.  The fields of
a proposal that no decision reads (its payload, its rationale and their like) are left out.
-/

namespace AgenticKibana.Proposals

open AgenticKibana.Library
open AgenticKibana.Jobs (isPySpace sliceTo strip)

/-! ### Rows -/

abbrev Time := Nat

/-- `_APPROVAL_LEASE_SECONDS`, in milliseconds. -/
def approvalLease : Nat := 30000

def maxDecisionReasonChars : Nat := 200

inductive Kind where
  | suppression | memory | tuning | automationAck
deriving DecidableEq, Repr

inductive Status where
  | pending | applying | approved | rejected | expired
deriving DecidableEq, Repr

/-- What a claim decides: `action` and `decision_intent`. -/
inductive Decision where
  | approve | reject
deriving DecidableEq, Repr

structure Proposal where
  id : String
  kind : Kind
  status : Status
  decidedBy : Option String
  decidedAt : Option String
  decisionActor : Option String
  decisionIntent : Option Decision
  decisionAuditAt : Option String
  applyingToken : Option String
  applyingAt : Option Time
  approvalError : Option String
  expiresAt : Option Time
  decisionReason : Option String
deriving DecidableEq, Repr

/-- What a change takes from the interpreter: the clock, and its reading `iso_now()`. -/
structure Env where
  now : Time
  isoNow : String

/-- `x or y` on an optional text: the empty one counts as absent. -/
def orElse (x y : Option String) : Option String :=
  match x with
  | none => y
  | some s => if s = "" then y else some s

/-- `x or None`. -/
def nonempty (s : String) : Option String := if s = "" then none else some s

def flushWord (word : List Char) (words : List (List Char)) : List (List Char) :=
  if word = [] then words else word.reverse :: words

/-- `text.split()`: the words, the last one first. -/
def splitWords : List Char → List Char → List (List Char) → List (List Char)
  | [], word, words => flushWord word words
  | c :: cs, word, words =>
    if isPySpace c then splitWords cs [] (flushWord word words)
    else splitWords cs (c :: word) words

/-- A character that `_CONTROL_CHARS` matches. -/
def isControl (c : Char) : Bool := c.toNat ≤ 0x1f || c.toNat = 0x7f

/-- `sanitize_decision_reason`.  A run of control characters becomes one space; the words
are what is left either way. -/
def sanitizeDecisionReason (reason : Option String) : String :=
  let text := (reason.getD "").toList.map fun c => if isControl c then ' ' else c
  let words := (splitWords text [] []).reverse.map String.ofList
  strip (sliceTo maxDecisionReasonChars (" ".intercalate words))

/-- `proposal_is_expired`; the deadline of a suppression is that of the rule it drafts. -/
def proposalIsExpired (p : Proposal) (now : Time) : Bool :=
  match p.kind with
  | .suppression => false
  | _ =>
    match p.expiresAt with
    | none => false
    | some deadline => deadline ≤ now

def leaseIsStale (p : Proposal) (now : Time) : Bool :=
  match p.applyingAt with
  | none => true
  | some started => started + approvalLease ≤ now

def fixedDecisionActor (p : Proposal) (by_ : String) : String :=
  match p.decisionActor with
  | some actor => actor
  | none =>
    match p.decidedBy with
    | some decided => strip decided
    | none => strip by_

def Claimed (p : Proposal) (by_ token : String) (action : Decision) (reason : String)
    (env : Env) : Proposal :=
  { p with
    status := .applying
    decisionActor := some (fixedDecisionActor p by_)
    decisionIntent := some (p.decisionIntent.getD action)
    decisionAuditAt := orElse p.decisionAuditAt (some env.isoNow)
    decisionReason := orElse p.decisionReason (nonempty reason)
    applyingToken := some token
    applyingAt := some env.now
    approvalError := none
    decidedBy := nonempty (fixedDecisionActor p by_)
    decidedAt := none }

def Finalized (p : Proposal) (by_ : String) (action : Decision) (env : Env) : Proposal :=
  { p with
    status := match action with
      | .approve => .approved
      | .reject => .rejected
    applyingToken := none
    applyingAt := none
    approvalError := none
    decidedBy := nonempty (fixedDecisionActor p by_)
    decidedAt := some env.isoNow }

/-- The row of a decision that failed: it can be claimed again. -/
def Released (p : Proposal) (detail : String) : Proposal :=
  { p with
    status := .pending
    applyingToken := none
    applyingAt := none
    approvalError := some detail
    decidedBy := none
    decidedAt := none }

def Expired (p : Proposal) : Proposal :=
  { p with status := .expired, applyingToken := none, applyingAt := none }

/-- The row `reject_pending` writes. -/
def Rejected (p : Proposal) (by_ : String) (env : Env) : Proposal :=
  { p with
    status := .rejected
    approvalError := none
    decidedBy := nonempty (fixedDecisionActor p by_)
    decidedAt := some env.isoNow
    decisionActor := some (fixedDecisionActor p by_) }

/-! ### Changes of the list -/

inductive Outcome where
  | claimed | missing | expired | conflict | rejected
deriving DecidableEq, Repr

def replaceFirst (id : String) (row : Proposal) : List Proposal → List Proposal
  | [] => []
  | p :: rest => if p.id = id then row :: rest else p :: replaceFirst id row rest

def find (entries : List Proposal) (id : String) : Option Proposal :=
  entries.find? fun p => p.id = id

def claimRow (p : Proposal) (by_ token : String) (action : Decision) (reason : String)
    (moment : Time) (env : Env) : Proposal × Outcome :=
  if p.decisionIntent.any (· ≠ action) then (p, .conflict)
  else
    let lapsed := p.status = .expired ∨ (p.status = .pending ∧ proposalIsExpired p moment = true)
    if action = .approve ∧ lapsed then (p, .expired)
    else if p.status = .pending ∨ (p.status = .applying ∧ leaseIsStale p env.now = true) ∨
        (action = .reject ∧ p.status = .expired) then
      (Claimed p by_ token action reason env, .claimed)
    else (p, .conflict)

def claimDecision (id by_ token : String) (action : Decision) (reason : Option String)
    (moment : Time) (env : Env) (entries : List Proposal) :
    (Option Proposal × Outcome) × List Proposal :=
  match find entries id with
  | none => ((none, .missing), entries)
  | some p =>
    let (row, outcome) :=
      claimRow p by_ token action (sanitizeDecisionReason reason) moment env
    ((some row, outcome), replaceFirst id row entries)

def finalizeDecision (id by_ token : String) (action : Decision) (env : Env)
    (entries : List Proposal) : Option Proposal × List Proposal :=
  match find entries id with
  | none => (none, entries)
  | some p =>
    if p.status ≠ .applying ∨ p.applyingToken ≠ some token ∨ p.decisionIntent ≠ some action then
      (none, entries)
    else
      (some (Finalized p by_ action env), replaceFirst id (Finalized p by_ action env) entries)

def errorDetail (error : String) : String :=
  sliceTo 500 (strip (if error = "" then "Approval failed" else error))

def releaseApproval (id token error : String) (entries : List Proposal) :
    Option Proposal × List Proposal :=
  match find entries id with
  | none => (none, entries)
  | some p =>
    if p.status ≠ .applying ∨ p.applyingToken ≠ some token then (none, entries)
    else
      (some (Released p (errorDetail error)),
        replaceFirst id (Released p (errorDetail error)) entries)

/-- The loop of `sweep_expired`: the swept rows, and the list; at most `bound` are swept. -/
def sweepExpired (moment : Time) : Nat → List Proposal → List Proposal × List Proposal
  | 0, entries => ([], entries)
  | _, [] => ([], [])
  | bound + 1, p :: rest =>
    if p.status ≠ .pending ∨ proposalIsExpired p moment = false then
      let (swept, entries) := sweepExpired moment (bound + 1) rest
      (swept, p :: entries)
    else
      let (swept, entries) := sweepExpired moment bound rest
      (Expired p :: swept, Expired p :: entries)

def rejectPending (id by_ : String) (env : Env) (entries : List Proposal) :
    (Option Proposal × Outcome) × List Proposal :=
  match find entries id with
  | none => ((none, .missing), entries)
  | some p =>
    if p.status ≠ .pending then ((some p, .conflict), entries)
    else ((some (Rejected p by_ env), .rejected), replaceFirst id (Rejected p by_ env) entries)

/-- The decisions; `now` is the moment the caller hands in, or the clock when the call
was made.  `sweep_expired` first reads the list without confirmation, to see whether there
is anything to sweep: whether it goes on is up to the caller here. -/
inductive Op where
  | claimApproval (id by_ token : String) (now : Time)
  | claimRejection (id by_ token : String) (reason : Option String) (now : Time)
  | finalizeApproval (id by_ token : String)
  | finalizeRejection (id by_ token : String)
  | releaseApproval (id token error : String)
  | sweepExpired (now : Time) (limit : Nat)
  | rejectPending (id by_ : String)
deriving DecidableEq

inductive Val where
  | decision (row : Option Proposal) (outcome : Outcome)
  | updated (row : Option Proposal)
  | swept (rows : List Proposal)
deriving DecidableEq

def Op.apply (op : Op) (env : Env) (entries : List Proposal) : Val × List Proposal :=
  match op with
  | .claimApproval id by_ token now =>
    let (r, entries) := claimDecision id by_ token .approve none now env entries
    (.decision r.1 r.2, entries)
  | .claimRejection id by_ token reason now =>
    let (r, entries) := claimDecision id by_ token .reject reason now env entries
    (.decision r.1 r.2, entries)
  | .finalizeApproval id by_ token =>
    let (r, entries) := finalizeDecision id by_ token .approve env entries
    (.updated r, entries)
  | .finalizeRejection id by_ token =>
    let (r, entries) := finalizeDecision id by_ token .reject env entries
    (.updated r, entries)
  | .releaseApproval id token error =>
    let (r, entries) := Proposals.releaseApproval id token error entries
    (.updated r, entries)
  | .sweepExpired now limit =>
    let (r, entries) := Proposals.sweepExpired now limit entries
    (.swept r, entries)
  | .rejectPending id by_ =>
    let (r, entries) := Proposals.rejectPending id by_ env entries
    (.decision r.1 r.2, entries)

/-- `kv_mutate_strict` over the list, from the proposals that were drafted: eight attempts
a call.  The clock reads a nonempty text. -/
@[reducible] def proposalInterface (drafted : List Proposal) : CasCell.Interface where
  Doc := List Proposal
  Op := Op
  Env := Env
  Val := Val
  Err := Empty
  Query := Empty
  Answer := Empty
  init := drafted
  attempts := 8
  admissible := fun _ env _ => decide (env.isoNow ≠ "")
  change := fun op env entries => .ok (op.apply env entries)
  answer := fun q _ _ => q

abbrev proposalCell (drafted : List Proposal) := CasCell.cell (proposalInterface drafted)

end AgenticKibana.Proposals
