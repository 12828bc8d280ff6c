import AgenticKibana.Library.Dict
import Mathlib.Algebra.Order.Field.Rat
import Mathlib.Order.Lattice

/-!
# The provider circuit breaker

`ProviderHealth` keeps one row for every breaker key: a fine key for a provider, channel, role and
model, and a coarse one for the provider and channel alone.  A row keeps the last outcomes, ages
them and is closed, open or half open.  Times and rates are rational numbers; what
`random.uniform` draws is part of the call.
-/

namespace AgenticKibana.Breaker

open AgenticKibana.Library

inductive BreakerState where
  | closed
  | opened
  | halfOpen
  deriving DecidableEq

inductive Reason where
  | immediateTrip
  | failureRate
  | probeFailed
  | probeSucceeded
  | waitElapsed
  | evidenceAgedOut
  | observedSuccess
  deriving DecidableEq

inductive Scope where
  | role
  | provider
  deriving DecidableEq

/-- `ResilienceConfig`, with the defaults that an unwired tracker uses. -/
structure Policy where
  enabled : Bool := true
  enforce : Bool := false
  windowSize : Nat := 20
  minimumCalls : Nat := 10
  failureRateThreshold : ℚ := 1 / 2
  waitSeconds : ℚ := 60
  maxWaitSeconds : ℚ := 600
  halfOpenSuccesses : Nat := 2
  outcomeMaxAgeSeconds : ℚ := 3600

namespace Policy

variable (policy : Policy)

def enforcing : Bool := policy.enabled && policy.enforce

/-- `_window_size`. -/
def window : Nat := max 2 policy.windowSize

def quorum : Nat := min (max 1 policy.minimumCalls) policy.window

/-- `_failure_rate_threshold`. -/
def threshold : ℚ := min 1 (max (1 / 2) policy.failureRateThreshold)

/-- `_wait_seconds`. -/
def wait : ℚ := max 1 policy.waitSeconds

/-- `_max_wait_seconds`. -/
def maxWait : ℚ := max policy.wait policy.maxWaitSeconds

/-- `_half_open_successes`. -/
def probes : Nat := max 1 policy.halfOpenSuccesses

/-- `_outcome_max_age`. -/
def maxAge : ℚ := max 1 policy.outcomeMaxAgeSeconds

end Policy

def immediateTripClasses : List String := ["unauthenticated", "quota"]

def maxBreakerKeys : Nat := 500

def maxTransitions : Nat := 200

def ignoredProviders : List String := ["mock", "demo"]

/-- `name or fallback`. -/
def orElse (name fallback : String) : String := if name = "" then fallback else name

def breakerKey (provider channel role model : String) : String :=
  orElse provider "unknown" ++ ":" ++ orElse channel "completion" ++ ":" ++ orElse role
    "*" ++ ":" ++
    orElse model "*"

def coarseKey (provider channel : String) : String := breakerKey provider channel "*" "*"

/-- `_ignored`; `lower` is Python's. -/
def ignored (lower : String → String) (provider model : String) : Bool :=
  ignoredProviders.contains (lower provider) || "mock".toList.isPrefixOf model.toList

structure Row where
  key : String
  scope : Scope
  state : BreakerState := .closed
  window : List (ℚ × Bool) := []
  openUntil : ℚ := 0
  openReason : Option Reason := none
  tripClass : String := ""
  waitSeconds : ℚ
  halfOpenSuccesses : Nat := 0
  opens : Nat := 0

structure Transition where
  key : String
  previous : BreakerState
  next : BreakerState
  reason : Reason
  failureClass : String
  samples : Nat
  waitSeconds : ℚ
  enforced : Bool

structure Health where
  breakers : Dict String Row
  transitions : List Transition

def Health.empty : Health := ⟨Dict.empty, []⟩

abbrev Work : Type := Row × List Transition

section Rows

variable (policy : Policy)

def transition (next : BreakerState) (reason : Reason) (w : Work) : Work :=
  let previous := w.1.state
  let row := { w.1 with
    state := next
    openUntil := if next = .opened then w.1.openUntil else 0
    openReason := if next = .closed then none else w.1.openReason
    tripClass := if next = .closed then "" else w.1.tripClass }
  if previous = next then (row, w.2)
  else (row, w.2 ++ [⟨row.key, previous, next, reason, row.tripClass, row.window.length,
    row.waitSeconds, policy.enforcing⟩])

/-- `_open`; `jitter` is what `random.random()` drew. -/
def openRow (now jitter : ℚ) (reason : Reason) (w : Work) : Work :=
  transition policy .opened reason ({ w.1 with
    openUntil := now + max 1 w.1.waitSeconds * jitter
    openReason := some reason
    halfOpenSuccesses := 0
    opens := w.1.opens + 1 }, w.2)

def probeSucceeded (w : Work) : Work :=
  let row := { w.1 with halfOpenSuccesses := w.1.halfOpenSuccesses + 1 }
  if row.halfOpenSuccesses < policy.probes then (row, w.2)
  else transition policy .closed .probeSucceeded
    ({ row with window := [], waitSeconds := policy.wait }, w.2)

/-- `_trim`: the last outcomes. -/
def trim (window : List (ℚ × Bool)) : List (ℚ × Bool) := window.drop (window.length - policy.window)

def drain (now : ℚ) (window : List (ℚ × Bool)) : List (ℚ × Bool) :=
  match window.getLast? with
  | some (t, _) => if policy.maxAge < now - t then [] else window
  | none => window

def settle (now : ℚ) (w : Work) : Work :=
  let row := { w.1 with window := drain policy now w.1.window }
  if row.window.isEmpty ∧ row.state ≠ .closed ∧ row.openUntil ≤ now then
    transition policy .closed .evidenceAgedOut
      ({ row with waitSeconds := policy.wait, halfOpenSuccesses := 0 }, w.2)
  else (row, w.2)

structure Outcome where
  now : ℚ
  ok : Bool
  failureClass : String
  immediate : Bool
  evaluateRate : Bool
  jitter : ℚ

def failureRate (window : List (ℚ × Bool)) : ℚ :=
  (window.countP fun sample => !sample.2 : ℕ) / (window.length : ℕ)

def failing (window : List (ℚ × Bool)) : Bool :=
  policy.quorum ≤ window.length && policy.threshold ≤ failureRate window

def tripClass (failureClass : String) (row : Row) : String := orElse failureClass row.tripClass

/-- `_fold` on a settled row. -/
def score (o : Outcome) (w : Work) : Work :=
  if w.1.state = .halfOpen then
    if o.ok then probeSucceeded policy w
    else openRow policy o.now o.jitter .probeFailed ({ w.1 with
      waitSeconds := min policy.maxWait (max 1 w.1.waitSeconds * 2)
      tripClass := tripClass o.failureClass w.1 }, w.2)
  else
    let row := { w.1 with window := trim policy (w.1.window ++ [(o.now, o.ok)]) }
    if row.state = .opened then
      if o.ok then
        probeSucceeded policy
          (transition policy .halfOpen .observedSuccess ({ row with halfOpenSuccesses := 0 }, w.2))
      else (row, w.2)
    else if o.immediate then
      openRow policy o.now o.jitter .immediateTrip ({ row with tripClass := o.failureClass }, w.2)
    else if o.evaluateRate ∧ failing policy row.window then
      openRow policy o.now o.jitter .failureRate
        ({ row with tripClass := tripClass o.failureClass row }, w.2)
    else (row, w.2)

def fold (o : Outcome) (w : Work) : Work := score policy o (settle policy o.now w)

def admitRow (now : ℚ) (w : Work) : Work :=
  let w := settle policy now w
  if w.1.state = .opened ∧ w.1.openUntil ≤ now then transition policy .halfOpen
    .waitElapsed w else w

def refusal (row : Row) : Option (Reason × String) :=
  if row.state = .opened then some (row.openReason.getD .failureRate, row.tripClass) else none

end Rows

section Registry

variable (policy : Policy)

def Health.store (h : Health) (key : String) (w : Work) : Health where
  breakers := h.breakers.set key w.1
  transitions := (h.transitions ++ w.2).drop (h.transitions.length + w.2.length - maxTransitions)

def Health.update (h : Health) (key : String) (f : Work → Work) : Health :=
  match h.breakers.get? key with
  | none => h
  | some row => h.store key (f (row, []))

def evictedBefore (a b : String × Row) : Bool :=
  a.2.window.length < b.2.window.length ||
    (a.2.window.length == b.2.window.length && decide (a.1 ≤ b.1))

/-- `_evict_if_needed`: only closed rows are dropped. -/
def evictIfNeeded (breakers : Dict String Row) : Dict String Row :=
  if breakers.size < maxBreakerKeys then breakers
  else
    let closed := (breakers.entries.filter fun e => e.2.state = .closed).mergeSort evictedBefore
    let evicted := (closed.take (max 1 (breakers.size - maxBreakerKeys + 1))).map Prod.fst
    breakers.filter fun key _ => !evicted.contains key

/-- `_breaker_row`: the row of a key, a new closed one if there is none. -/
def Health.breakerRow (h : Health) (key : String) (scope : Scope) : Health :=
  if h.breakers.contains key then h
  else { h with
    breakers := (evictIfNeeded h.breakers).set key { key, scope, waitSeconds := policy.wait } }

/-- One round of the loop of `_record_outcome`. -/
def Health.foldKey (h : Health) (key : String) (scope : Scope) (o : Outcome) : Health :=
  (h.breakerRow policy key scope).update key (fold policy o)

structure Report where
  provider : String
  channel : String
  role : String
  model : String
  now : ℚ
  ok : Bool
  failureClass : String := ""
  /-- what was drawn for the coarse and the fine key -/
  jitter : ℚ × ℚ := (0, 0)

def Report.coarse (r : Report) : String := coarseKey r.provider r.channel

def Report.fine (r : Report) : String := breakerKey r.provider r.channel r.role r.model

def Report.immediate (r : Report) : Bool := !r.ok && immediateTripClasses.contains r.failureClass

def Report.toCoarse (r : Report) : Outcome :=
  ⟨r.now, r.ok, r.failureClass, r.immediate, false, r.jitter.1⟩

def Report.toFine (r : Report) : Outcome := ⟨r.now, r.ok, r.failureClass, false, true, r.jitter.2⟩

def Health.recordOutcome (h : Health) (r : Report) : Health :=
  if policy.enabled then
    (h.foldKey policy r.coarse .provider r.toCoarse).foldKey policy r.fine .role r.toFine
  else h

/-- `record_success` and `record_failure`. -/
def Health.record (lower : String → String) (h : Health) (r : Report) : Health :=
  if ignored lower r.provider r.model ∨ r.failureClass = "not_configured" then h
  else h.recordOutcome policy r

structure Check where
  provider : String
  channel : String
  role : String
  model : String
  now : ℚ

def Check.coarse (k : Check) : String := coarseKey k.provider k.channel

def Check.fine (k : Check) : String := breakerKey k.provider k.channel k.role k.model

/-- What a check answers: whether the call is allowed, and why it is not. -/
abbrev Verdict : Type := Bool × Option (Reason × String)

def Health.admitted (lower : String → String) (h : Health) (k : Check) : Health :=
  if policy.enabled = false ∨ ignored lower k.provider k.model = true then h
  else (h.update k.coarse (admitRow policy k.now)).update k.fine (admitRow policy k.now)

def Health.refusal (h : Health) (key : String) : Option (Reason × String) :=
  (h.breakers.get? key).bind Breaker.refusal

def Health.allows (lower : String → String) (h : Health) (k : Check) : Verdict :=
  if policy.enabled = false ∨ ignored lower k.provider k.model = true then (true, none)
  else
    let h1 := h.update k.coarse (admitRow policy k.now)
    let h2 := h1.update k.fine (admitRow policy k.now)
    match (h1.refusal k.coarse).or (h2.refusal k.fine) with
    | some why => if policy.enforcing then (false, some why) else (true, none)
    | none => (true, none)

end Registry

end AgenticKibana.Breaker
