import AgenticKibana.Stores.Document
import Mathlib.Data.List.Sort

/-!
# The session registry, and the requests that use it

All sessions are one key-value document: a list of rows, one for every sign-in, and beside them a
sentinel row for every user whose token version was ever raised.  Times are in microseconds; a
time that is not set is `none`.

A sign-in registers the session of the token it mints.  Every other request is judged by
`evaluate_session`; a token whose session is not registered is registered there.  A refresh looks
its row up, mints a token of a new name, re-keys the row to it and answers.  Only a token that was
handed out with an answer is presented, and names of sessions are fresh.
-/

namespace AgenticKibana.Sessions

open AgenticKibana.Library AgenticKibana.Stores

structure Row where
  sid : String
  username : String
  refreshHash : String := ""
  refreshPrevHash : String := ""
  tokenVersion : Nat := 0
  createdAt : Option Nat := none
  lastActiveAt : Option Nat := none
  absoluteExpiryAt : Option Nat := none
  idleExpiryAt : Option Nat := none
  revoked : Bool := false
  revokedAt : Option Nat := none
  remember : Bool := false
  deriving DecidableEq

structure Site where
  strip : String → String
  lower : String → String
  sha256 : String → String

def Site.norm (site : Site) (username : String) : String := site.lower (site.strip username)

def second : Nat := 1000000

def pruneGraceSeconds : Nat := 7 * 24 * 3600

def maxRows : Nat := 2000

def sentinelMark : String := "__tv__:"

def tvKey (site : Site) (username : String) : String := sentinelMark ++ site.norm username

def isSentinel (sid : String) : Bool := sentinelMark.toList.isPrefixOf sid.toList

def Row.isSentinel (r : Row) : Bool := Sessions.isSentinel r.sid

def hashRefresh (site : Site) (salt token : String) : String :=
  if token = "" then "" else salt ++ "$" ++ site.sha256 (salt ++ ":" ++ token)

def verifyRefresh (site : Site) (token stored : String) : Bool :=
  if token = "" ∨ stored = "" ∨ stored.toList.contains '$' = false then false
  else
    let salt := String.ofList (stored.toList.takeWhile (· ≠ '$'))
    let digest := String.ofList ((stored.toList.dropWhile (· ≠ '$')).drop 1)
    site.sha256 (salt ++ ":" ++ token) == digest

@[simp] theorem verifyRefresh_empty (site : Site) (token : String) :
    verifyRefresh site token "" = false := by
  simp [verifyRefresh]

/-! ### Whether a session may be used -/

/-- `SessionLimits`, in seconds; 0 is no limit. -/
structure Limits where
  idle : Nat := 0
  absolute : Nat := 0
  rememberIdle : Nat := 0
  rememberAbsolute : Nat := 0
  fallbackIdle : Nat := 0
  fallbackAbsolute : Nat := 0

def Limits.rememberEnabled (limits : Limits) : Bool := 0 < limits.rememberAbsolute

def strictest (a b : Nat) : Nat := if a = 0 then b else if b = 0 then a else min a b

/-- `limits_for_row`: the inactivity and the absolute limit of a row. -/
def limitsForRow (limits : Limits) (row : Row) : Nat × Nat :=
  if row.remember then
    if 0 < limits.rememberAbsolute then
      let absolute := limits.rememberAbsolute
      let idle := limits.rememberIdle
      (if 0 < idle ∧ idle ≤ absolute then idle else absolute, absolute)
    else (strictest limits.idle limits.fallbackIdle,
      strictest limits.absolute limits.fallbackAbsolute)
  else (limits.idle, limits.absolute)

inductive Reason where
  | revoked
  | tvMismatch
  | absoluteExpired
  | idleExpired
  | unknown
  deriving DecidableEq

/-- Whether a limit counted from `since`, or else the stamped time, has passed. -/
def expired (now limit : Nat) (since stamped : Option Nat) : Bool :=
  match since with
  | some t => if 0 < limit then t + limit * second < now else stamped.any (· < now)
  | none => stamped.any (· < now)

/-- `is_active`: why a session may not be used. -/
def isActive (limits : Limits) (row : Row) (now : Nat) : Option Reason :=
  if row.revoked then some .revoked
  else
    let (idle, absolute) := limitsForRow limits row
    if expired now absolute row.createdAt row.absoluteExpiryAt then some .absoluteExpired
    else if expired now idle row.lastActiveAt row.idleExpiryAt then some .idleExpired
    else none

theorem revoked_of_isActive {limits : Limits} {row : Row} {now : Nat}
    (h : isActive limits row now = none) : row.revoked = false := by
  unfold isActive at h
  cases hrow : row.revoked with
  | false => rfl
  | true => simp [hrow] at h

def deadAt (now : Nat) (row : Row) : Option Nat :=
  if row.revoked then some (match row.revokedAt with
    | some t => if t = 0 then now else t
    | none => now)
  else
    match row.absoluteExpiryAt with
    | some t => if t < now then some t else none
    | none => none

def pruneRows (now : Nat) (rows : List Row) : List Row :=
  rows.filter fun row => row.isSentinel ||
    !((deadAt now row).any fun t => t + pruneGraceSeconds * second < now)

def createdBefore (a b : Row) : Bool :=
  (a.createdAt.map (· + 1)).getD 0 ≤ (b.createdAt.map (· + 1)).getD 0

def bound (now : Nat) (rows : List Row) : List Row :=
  let pruned := pruneRows now rows
  if maxRows < pruned.length then
    let sorted := pruned.mergeSort createdBefore
    sorted.drop (sorted.length - maxRows)
  else pruned

/-! ### Changes -/

/-- The changes of `SessionStore`. -/
inductive Change where
  | create (row : Row)
  | touch (sid : String) (idle : Nat)
  | rekeyAndRotate (oldSid newSid newHash : String) (idle : Nat)
  | revoke (sid : String)
  | revokeAll (username exceptSid : String)
  | revokeOthers (username keepSid : String)
  | prune

/-- Change the first row that meets `p`. -/
def updateFirst (p : Row → Bool) (f : Row → Row) : List Row → List Row
  | [] => []
  | r :: rs => if p r then f r :: rs else r :: updateFirst p f rs

def Row.revoke (now : Nat) (r : Row) : Row := { r with revoked := true, revokedAt := some now }

def Row.slide (now idle : Nat) (r : Row) : Row :=
  { r with
    lastActiveAt := some now
    idleExpiryAt := if 0 < idle then some (now + idle * second) else r.idleExpiryAt }

def Row.fresh (now : Nat) (r : Row) : Bool := r.lastActiveAt.any fun t => now < t + 60 * second

def Row.rekey (now : Nat) (newSid newHash : String) (idle : Nat) (r : Row) : Row :=
  { r.slide now idle with sid := newSid, refreshPrevHash := r.refreshHash, refreshHash := newHash }

def Row.another (site : Site) (username keep : String) (r : Row) : Bool :=
  !r.isSentinel && site.norm r.username == site.norm username && !r.revoked &&
    !(keep != "" && r.sid == keep)

def bumpVersion (site : Site) (username : String) (rows : List Row) : List Row :=
  if rows.any (fun r => r.sid == tvKey site username) then
    updateFirst (fun r => r.sid == tvKey site username)
      (fun r => { r with tokenVersion := r.tokenVersion + 1 }) rows
  else rows ++ [{ sid := tvKey site username, username, tokenVersion := 1 }]

/-- What the closures of `SessionStore` do to the rows. -/
def Change.edit (site : Site) (now : Nat) : Change → List Row → List Row
  | .create row, rows =>
    if rows.any (fun r => r.sid == row.sid) then
      updateFirst (fun r => r.sid == row.sid) (fun _ => row) rows
    else rows ++ [row]
  | .touch sid idle, rows =>
    updateFirst (fun r => r.sid == sid) (fun r => if r.fresh now then r else r.slide now idle) rows
  | .rekeyAndRotate oldSid newSid newHash idle, rows =>
    updateFirst (fun r => r.sid == oldSid) (Row.rekey now newSid newHash idle) rows
  | .revoke sid, rows => updateFirst (fun r => r.sid == sid && !r.revoked) (Row.revoke now) rows
  | .revokeAll username exceptSid, rows =>
    bumpVersion site username
      (rows.map fun r => if r.another site username exceptSid then r.revoke now else r)
  | .revokeOthers username keepSid, rows =>
    rows.map fun r => if r.another site username keepSid then r.revoke now else r
  | .prune, rows => rows

structure Write where
  change : Change
  redeems : Option String := none

inductive Failure where
  | http (status : Nat) (reason : Option Reason)

def loaded (rows : List Row) : List Row := rows.filter fun r => r.sid != ""

/-- The mutator of `_mutate`. -/
def apply (site : Site) (w : Write) (now : Nat) (rows : List Row) : Except Failure (List Row) :=
  .ok (bound now (w.change.edit site now (loaded rows)))

def tvFrom (site : Site) (rows : List Row) (username : String) : Nat :=
  ((rows.find? fun r => r.sid == tvKey site username).map Row.tokenVersion).getD 0

def find (rows : List Row) (sid : String) : Option Row :=
  if sid = "" ∨ isSentinel sid = true then none else rows.find? fun r => r.sid == sid

/-! ### The requests -/

structure Claims where
  sid : String
  username : String
  tv : Nat
  iat : Nat
  exp : Nat
  rm : Bool
  deriving DecidableEq

/-- An access token, and the session a refresh minted it from. -/
structure Issued where
  claims : Claims
  origin : Option String

structure Tokens where
  issued : List Issued
  handed : List String

/-- What a request does besides: mint a token, draw a refresh token and a salt, verify a token it
was given, hand one out, pass a request. -/
inductive Effect where
  | mint (username : String) (rememberSeconds : Nat) (origin : Option String)
  | draw
  | verify (claims : Claims)
  | hand (claims : Claims) (presented : Option String)
  | allow (claims : Claims)

def Effect.Reply : Effect → Type
  | .mint .. => Option Claims
  | .draw => String × String
  | .verify _ => Bool
  | .hand .. => Unit
  | .allow _ => Unit

structure Draw where
  claims : Option Claims := none
  verified : Bool := true
  token : String := ""
  salt : String := ""

abbrev Shared : Type := State (List Row) Tokens

def serveEffect (_ : Nat) (x : Effect) (draw : Draw) (s : Shared) : Option (Shared × x.Reply) :=
  match x with
  | .mint _ _ origin =>
    match draw.claims with
    | none => some (s, none)
    | some claims =>
      if claims.sid = "" ∨ isSentinel claims.sid = true ∨
          s.rest.issued.any (fun p => p.claims.sid == claims.sid) = true then none
      else some ({ s with rest.issued := s.rest.issued ++ [⟨claims, origin⟩] }, some claims)
  | .draw => some (s, (draw.token, draw.salt))
  | .verify claims => some (s, draw.verified && s.rest.handed.contains claims.sid &&
      s.rest.issued.any fun p => p.claims == claims)
  | .hand claims _ => some ({ s with rest.handed := s.rest.handed ++ [claims.sid] }, ())
  | .allow _ => some (s, ())

abbrev Prog (α : Type) : Type := Program (List Row) Write Nat Failure Effect.Reply α

def mint (username : String) (rememberSeconds : Nat) (origin : Option String) :
    Prog (Option Claims) :=
  other (Effect.mint username rememberSeconds origin)

def draw : Prog (String × String) := other Effect.draw

def verify (claims : Claims) : Prog Bool := other (Effect.verify claims)

def hand (claims : Claims) (presented : Option String) : Prog Unit :=
  other (Effect.hand claims presented)

def allow (claims : Claims) : Prog Unit := other (Effect.allow claims)

/-! ### `SessionStore` -/

namespace SessionStore

variable (site : Site)

/-- `_load`: a read that fails is an empty registry. -/
def load : Prog (List Row) := do
  let current ← get
  pure (loaded (valueOf [] current))

def mutate (w : Write) : Prog Unit := do
  let _ ← kvMutate [] (apply site) w kvMutateRetries none
  pure ()

def getRow (sid : String) : Prog (Option Row) := do
  let rows ← load
  pure (find rows sid)

def tokenVersionFor (username : String) : Prog Nat := do
  let rows ← load
  pure (tvFrom site rows username)

def newRow (sid username : String) (tokenVersion : Nat) (refreshHash : String) (idle absolute : Nat)
    (remember : Bool) (now : Nat) : Row where
  sid := sid
  username := username
  refreshHash := refreshHash
  tokenVersion := tokenVersion
  createdAt := some now
  lastActiveAt := some now
  absoluteExpiryAt := if 0 < absolute then some (now + absolute * second) else none
  idleExpiryAt := if 0 < idle then some (now + idle * second) else none
  remember := remember

def create (sid username : String) (tokenVersion : Nat) (refreshHash : String) (idle absolute : Nat)
    (remember : Bool) : Prog Unit := do
  let now ← moment
  mutate site ⟨.create (newRow sid username tokenVersion refreshHash idle absolute
    remember now), none⟩

/-- `touch` writes only where the row was not active in the last minute. -/
def touch (sid : String) (idle : Nat) : Prog Unit := do
  let row ← getRow sid
  let now ← moment
  if row.any (Row.fresh now) then pure ()
  else mutate site ⟨.touch sid idle, none⟩

/-- The session a refresh token belongs to, or had belonged to. -/
inductive Match where
  | current (row : Row)
  | prev (row : Row)
  | none

def findByRefresh (token : String) : Prog Match := do
  if token = "" then pure .none
  else do
    let rows ← load
    match rows.find? fun r => !r.isSentinel && verifyRefresh site token r.refreshHash with
    | some row => pure (.current row)
    | none => do
        let rows ← load
        match rows.find? fun r => !r.isSentinel && verifyRefresh site token r.refreshPrevHash with
        | some row => pure (.prev row)
        | none => pure .none

end SessionStore

/-! ### Requests -/

inductive Request where
  | signIn (username : String) (rememberSeconds : Nat) (refreshHash : String) (limits : Limits)
  | refresh (presented : String) (limits : Limits)
  /-- a request with an access token; `closed` behind the factory boundary -/
  | evaluate (claims : Claims) (limits : Limits) (closed : Bool)
  | revoke (sid : String)
  | revokeAll (username exceptSid : String)
  | revokeOthers (username keepSid : String)
  | prune

inductive Response where
  | token (claims : Claims) (refreshToken : Option String)
  | passed
  | done

def issuedBeforePruneGrace (claims : Claims) (now : Nat) : Bool :=
  0 < claims.iat && (claims.iat + pruneGraceSeconds) * second < now

def rememberSecondsFromClaims (claims : Claims) : Nat :=
  if claims.rm then claims.exp - claims.iat else 0

namespace Routes

variable (site : Site)

def signIn (username : String) (rememberSeconds : Nat) (refreshHash : String) (limits : Limits) :
    Prog Response := do
  let minted ← mint username rememberSeconds none
  match minted with
  | none => .raise (.http 401 none)
  | some claims => do
      let remembered : Bool := 0 < rememberSeconds
      let absolute := if remembered then rememberSeconds else limits.absolute
      let idle := if remembered then
        (if 0 < limits.rememberIdle ∧ limits.rememberIdle ≤ rememberSeconds then limits.rememberIdle
          else rememberSeconds)
        else limits.idle
      SessionStore.create site claims.sid claims.username claims.tv refreshHash idle
        absolute remembered
      hand claims none
      pure (.token claims none)

def lazyRegister (claims : Claims) (limits : Limits) : Prog Unit :=
  let remembered : Bool := 0 < rememberSecondsFromClaims claims
  if remembered && limits.rememberEnabled then
    SessionStore.create site claims.sid claims.username claims.tv "" limits.rememberIdle
      limits.rememberAbsolute remembered
  else
    SessionStore.create site claims.sid claims.username claims.tv "" limits.idle limits.absolute
      remembered

/-- `strict_request_authority`, and the verdict on it. -/
def strictAuthority (claims : Claims) (limits : Limits) : Prog Response := do
  let current ← get
  match current with
  | none => .raise (.http 503 none)
  | some d =>
    match d.value.find? fun r => r.sid == claims.sid with
    | none => .raise (.http 401 (some .unknown))
    | some row =>
      if site.norm row.username ≠ site.norm claims.username then .raise (.http 401 (some .unknown))
      else if row.tokenVersion ≠ claims.tv ∨ tvFrom site d.value claims.username ≠ claims.tv then
        .raise (.http 401 (some .tvMismatch))
      else do
        let now ← moment
        match isActive limits row now with
        | some reason => .raise (.http 401 (some reason))
        | none => do
            allow claims
            pure .passed

/-- `evaluate_session`, for a token that has a session name. -/
def evaluateSession (claims : Claims) (limits : Limits) : Prog Response := do
  let row ← SessionStore.getRow claims.sid
  let current ← SessionStore.tokenVersionFor site claims.username
  if claims.tv < current then .raise (.http 401 (some .tvMismatch))
  else
    match row with
    | none => do
        let now ← moment
        if issuedBeforePruneGrace claims now then .raise (.http 401 (some .unknown))
        else do
          lazyRegister site claims limits
          allow claims
          pure .passed
    | some row => do
        let now ← moment
        match isActive limits row now with
        | some reason => .raise (.http 401 (some reason))
        | none => do
            SessionStore.touch site claims.sid (limitsForRow limits row).1
            allow claims
            pure .passed

/-- `require_auth`. -/
def evaluate (claims : Claims) (limits : Limits) (closed : Bool) : Prog Response := do
  let ok ← verify claims
  if ok = false then .raise (.http 401 none)
  else if claims.sid = "" then do
    allow claims
    pure .passed
  else if closed then strictAuthority site claims limits
  else evaluateSession site claims limits

def remaining (limits : Limits) (row : Row) (now : Nat) : Nat :=
  if row.remember && limits.rememberEnabled then
    let left := match row.createdAt with
      | some t => (t + limits.rememberAbsolute * second - now) / second
      | none => limits.rememberAbsolute
    max 60 (min left limits.rememberAbsolute)
  else 0

/-- The rotation of `auth_refresh`, for the row that was found. -/
def rotate (presented : String) (limits : Limits) (row : Row) : Prog Response := do
  let now ← moment
  match isActive limits row now with
  | some reason => .raise (.http 401 (some reason))
  | none => do
      let minted ← mint row.username (remaining limits row now) (some row.sid)
      match minted with
      | none => .raise (.http 401 none)
      | some claims => do
          let (newRefresh, salt) ← draw
          SessionStore.mutate site ⟨.rekeyAndRotate row.sid claims.sid
            (hashRefresh site salt newRefresh) (limitsForRow limits row).1, some presented⟩
          hand claims (some presented)
          pure (.token claims (some newRefresh))

def refresh (presented : String) (limits : Limits) : Prog Response := do
  let presented := site.strip presented
  if presented = "" then .raise (.http 400 none)
  else do
    let found ← SessionStore.findByRefresh site presented
    match found with
    | .prev row => do
        SessionStore.mutate site ⟨.revokeAll row.username "", none⟩
        .raise (.http 401 none)
    | .none => .raise (.http 401 none)
    | .current row => rotate site presented limits row

def change (c : Change) : Prog Response := do
  SessionStore.mutate site ⟨c, none⟩
  pure .done

end Routes

def Request.code (site : Site) : Request → Prog Response
  | .signIn username rememberSeconds refreshHash limits =>
    Routes.signIn site username rememberSeconds refreshHash limits
  | .refresh presented limits => Routes.refresh site presented limits
  | .evaluate claims limits closed => Routes.evaluate site claims limits closed
  | .revoke sid => Routes.change site (.revoke sid)
  | .revokeAll username exceptSid => Routes.change site (.revokeAll username exceptSid)
  | .revokeOthers username keepSid => Routes.change site (.revokeOthers username keepSid)
  | .prune => Routes.change site .prune

abbrev Requests : Type :=
  Clients (@Act.Reply (List Row) Write Effect Nat Effect.Reply) Request Failure Response Shared

abbrev RequestMove : Type := Move Request (Answer Nat Draw)

abbrev RequestAct : Type := Act (List Row) Write Nat Effect

abbrev RequestStep : Type := Step (List Row) Write Nat Tokens Effect.Reply

def Empty (s : Shared) : Prop := s.doc.value = [] ∧ s.rest.issued = [] ∧ s.rest.handed = []

def requestMachine (site : Site) : Machine Requests RequestMove :=
  (service serveEffect).machine (Request.code site) Empty

end AgenticKibana.Sessions
