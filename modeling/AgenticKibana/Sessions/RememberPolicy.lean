import AgenticKibana.Sessions.Requests

/-!
# Turning Remember me off

The limits of a remembered session are built from two families of durations: what is set
for ordinary sign-ins, and what is set for remembered ones.  Each has bounds of its own,
so the remembered duration may be the shorter one.  A session that is no longer
remembered is judged by the standard pair, the lifetime of an ordinary token and an
inactivity limit of its own; the remembered duration has no part in that.

The refresh of a token is left out: no session is registered with a refresh token.
-/

namespace AgenticKibana.Sessions

def rememberMaxSeconds : Nat := 86400

def maxSessionTokenSeconds : Nat := 6 * 86400

/-- `bounded_token_seconds`: the lifetime of an ordinary token. -/
def boundedTokenSeconds (tokenHours : Int) : Nat :=
  min maxSessionTokenSeconds (max 1 (tokenHours * 3600)).toNat

structure RememberMePolicy where
  enabled : Bool := true
  durationSeconds : Nat := 86400
  idleSeconds : Option Nat := none
  excludedRoles : List String := []
  duration_bounds : 3600 ≤ durationSeconds ∧ durationSeconds ≤ 86400
  idle_bounds : ∀ seconds ∈ idleSeconds, 300 ≤ seconds ∧ seconds ≤ 86400

structure SessionPolicyConfig where
  idleTimeout : Nat := 43200
  absoluteLifetime : Nat := 2592000
  rememberMe : RememberMePolicy
  idle_bound : 300 ≤ idleTimeout
  absolute_bound : 3600 ≤ absoluteLifetime

def policyLimits (policy : SessionPolicyConfig) (tokenSeconds : Nat) : Limits :=
  let idle := policy.idleTimeout
  let absolute := policy.absoluteLifetime
  let explicitIdle := policy.rememberMe.idleSeconds.getD 0
  let standard : Limits :=
    { idle, absolute, fallbackIdle := explicitIdle, fallbackAbsolute := tokenSeconds }
  if policy.rememberMe.enabled = false then standard
  else
    let duration := min rememberMaxSeconds policy.rememberMe.durationSeconds
    if duration = 0 then standard
    else
      let rememberAbsolute := if 0 < absolute then min duration absolute else duration
      let rememberIdle :=
        if 0 < explicitIdle then min explicitIdle rememberAbsolute
        else if 0 < idle then min idle rememberAbsolute
        else rememberAbsolute
      { standard with rememberIdle, rememberAbsolute }

def Site.normRoles (site : Site) (roles : List String) : List String :=
  (roles.map site.norm).filter (· ≠ "")

/-- `role_excluded`: whether one of the roles is on the list of excluded ones. -/
def RememberMePolicy.roleExcluded (site : Site) (rm : RememberMePolicy) (roles : List String) :
    Bool :=
  (site.normRoles rm.excludedRoles).any fun role => (site.normRoles roles).contains role

def Limits.withoutRemember (limits : Limits) : Limits :=
  { limits with rememberIdle := 0, rememberAbsolute := 0 }

/-- `session_limits`: the limits for someone who holds these roles. -/
def sessionLimits (site : Site) (policy : SessionPolicyConfig) (roles : List String)
    (tokenSeconds : Nat) : Limits :=
  let limits := policyLimits policy tokenSeconds
  if limits.rememberEnabled && policy.rememberMe.roleExcluded site roles then limits.withoutRemember
  else limits

def rememberWindowSeconds (policy : SessionPolicyConfig) : Nat :=
  (policyLimits policy 0).rememberAbsolute

/-- `_remember_decision`: how long a sign-in is remembered, 0 where it is not.  `requested` is
what the sign-in asks for, and `blocked` an insecure transport that is not allowed. -/
def rememberDecision (site : Site) (policy : SessionPolicyConfig) (roles : List String)
    (requested blocked : Bool) : Nat :=
  if requested = false then 0
  else if policy.rememberMe.enabled = false then 0
  else if policy.rememberMe.roleExcluded site roles then 0
  else if blocked then 0
  else min rememberMaxSeconds (rememberWindowSeconds policy)

/-- `_session_lifetime`: how long the token of a sign-in lives. -/
def sessionLifetime (tokenSeconds rememberSeconds : Nat) : Nat :=
  if 0 < rememberSeconds then max 60 (min rememberSeconds rememberMaxSeconds) else tokenSeconds

def SessionPolicyConfig.remembers (site : Site) (policy : SessionPolicyConfig)
    (roles : List String) :
    Bool :=
  policy.rememberMe.enabled && !policy.rememberMe.roleExcluded site roles

structure SameDurations (before after : SessionPolicyConfig) : Prop where
  idleTimeout : after.idleTimeout = before.idleTimeout
  absoluteLifetime : after.absoluteLifetime = before.absoluteLifetime
  durationSeconds : after.rememberMe.durationSeconds = before.rememberMe.durationSeconds
  idleSeconds : after.rememberMe.idleSeconds = before.rememberMe.idleSeconds

/-- **Nothing lives longer after the change.**  Neither limit of the row grows, the row is usable
at no moment at which it was not, and the token of the sign-in lives no longer. -/
structure OnlyShortens (site : Site) (before after : SessionPolicyConfig) (roles : List String)
    (tokenSeconds : Nat) (row : Row) (requested blocked : Bool) : Prop where
  idle : (limitsForRow (sessionLimits site after roles tokenSeconds) row).1 ≤
    (limitsForRow (sessionLimits site before roles tokenSeconds) row).1
  absolute : (limitsForRow (sessionLimits site after roles tokenSeconds) row).2 ≤
    (limitsForRow (sessionLimits site before roles tokenSeconds) row).2
  life : ∀ now, isActive (sessionLimits site after roles tokenSeconds) row now = none →
    isActive (sessionLimits site before roles tokenSeconds) row now = none
  token : sessionLifetime tokenSeconds (rememberDecision site after roles requested blocked) ≤
    sessionLifetime tokenSeconds (rememberDecision site before roles requested blocked)

def SessionPolicyConfig.strictIdle (policy : SessionPolicyConfig) : Nat :=
  strictest policy.idleTimeout (policy.rememberMe.idleSeconds.getD 0)

/-- The remembered duration is no shorter than what takes its place: for a remembered row the
inactivity limit and either the lifetime of a token or the absolute lifetime, for a sign-in that
is remembered the lifetime of a token. -/
structure RememberedIsLongest (policy : SessionPolicyConfig) (tokenSeconds : Nat) (row : Row)
    (requested blocked : Bool) : Prop where
  row_absolute : row.remember = true →
    tokenSeconds ≤ policy.rememberMe.durationSeconds ∨
      policy.absoluteLifetime ≤ policy.rememberMe.durationSeconds
  row_idle : row.remember = true →
    policy.strictIdle ≤ policy.rememberMe.durationSeconds ∧
      policy.strictIdle ≤ policy.absoluteLifetime
  token : requested = true → blocked = false →
    tokenSeconds ≤ policy.rememberMe.durationSeconds ∧ tokenSeconds ≤ policy.absoluteLifetime

/-! ### Limits and lifetimes in closed form -/

variable {site : Site} {before after : SessionPolicyConfig} {roles : List String}

theorem boundedTokenSeconds_pos (tokenHours : Int) : 0 < boundedTokenSeconds tokenHours := by
  simp only [boundedTokenSeconds, maxSessionTokenSeconds]
  omega

def SessionPolicyConfig.rememberedIdle (policy : SessionPolicyConfig) : Nat :=
  policy.rememberMe.idleSeconds.getD policy.idleTimeout

theorem rememberedIdle_pos (policy : SessionPolicyConfig) : 0 < policy.rememberedIdle := by
  have hidle := policy.idle_bound
  have hbounds := policy.rememberMe.idle_bounds
  cases hset : policy.rememberMe.idleSeconds with
  | none => simp only [SessionPolicyConfig.rememberedIdle, hset, Option.getD_none]; omega
  | some seconds =>
    have := (hbounds seconds hset).1
    simp only [SessionPolicyConfig.rememberedIdle, hset, Option.getD_some]; omega

theorem strictIdle_pos (policy : SessionPolicyConfig) : 0 < policy.strictIdle := by
  have hidle := policy.idle_bound
  simp only [SessionPolicyConfig.strictIdle, strictest]
  split <;> [omega; split <;> omega]

theorem strictIdle_le_rememberedIdle (policy : SessionPolicyConfig) :
    policy.strictIdle ≤ policy.rememberedIdle := by
  have hidle := policy.idle_bound
  have hbounds := policy.rememberMe.idle_bounds
  cases hset : policy.rememberMe.idleSeconds with
  | none =>
    simp only [SessionPolicyConfig.strictIdle, SessionPolicyConfig.rememberedIdle, strictest, hset,
      Option.getD_none]
    split <;> simp
  | some seconds =>
    have := (hbounds seconds hset).1
    simp only [SessionPolicyConfig.strictIdle, SessionPolicyConfig.rememberedIdle, strictest, hset,
      Option.getD_some]
    split <;> [omega; split <;> omega]

theorem sessionLimits_of_remembers (tokenSeconds : Nat) (h : before.remembers site roles = true) :
    sessionLimits site before roles tokenSeconds =
      { idle := before.idleTimeout
        absolute := before.absoluteLifetime
        rememberIdle := min before.rememberedIdle
          (min before.rememberMe.durationSeconds before.absoluteLifetime)
        rememberAbsolute := min before.rememberMe.durationSeconds before.absoluteLifetime
        fallbackIdle := before.rememberMe.idleSeconds.getD 0
        fallbackAbsolute := tokenSeconds } := by
  obtain ⟨henabled, hroles⟩ : before.rememberMe.enabled = true ∧
      before.rememberMe.roleExcluded site roles = false := by
    simpa [SessionPolicyConfig.remembers] using h
  have hdur := before.rememberMe.duration_bounds
  have hidle := before.idle_bound
  have habs := before.absolute_bound
  have hmin : min rememberMaxSeconds before.rememberMe.durationSeconds =
      before.rememberMe.durationSeconds := Nat.min_eq_right hdur.2
  have hne : before.rememberMe.durationSeconds ≠ 0 := by omega
  have hpos : 0 < before.absoluteLifetime := by omega
  have hset : (if 0 < before.rememberMe.idleSeconds.getD 0 then
        min (before.rememberMe.idleSeconds.getD 0)
          (min before.rememberMe.durationSeconds before.absoluteLifetime)
      else if 0 < before.idleTimeout then
        min before.idleTimeout (min before.rememberMe.durationSeconds before.absoluteLifetime)
      else min before.rememberMe.durationSeconds before.absoluteLifetime) =
      min before.rememberedIdle
        (min before.rememberMe.durationSeconds before.absoluteLifetime) := by
    cases hsome : before.rememberMe.idleSeconds with
    | none =>
      have : 0 < before.idleTimeout := by omega
      simp [SessionPolicyConfig.rememberedIdle, hsome, this]
    | some seconds =>
      have : 0 < seconds := by
        have := (before.rememberMe.idle_bounds seconds hsome).1
        omega
      simp [SessionPolicyConfig.rememberedIdle, hsome, this]
  simp only [sessionLimits, policyLimits, henabled, hroles, hmin, hne, hpos, hset,
    if_false, if_true,
    Bool.and_false, Bool.false_eq_true, Bool.true_eq_false]

/-- The limits while Remember me is off or one of the roles is excluded: none for remembered
sessions. -/
theorem sessionLimits_of_not_remembers (tokenSeconds : Nat)
    (h : after.remembers site roles = false) :
    sessionLimits site after roles tokenSeconds =
      { idle := after.idleTimeout
        absolute := after.absoluteLifetime
        fallbackIdle := after.rememberMe.idleSeconds.getD 0
        fallbackAbsolute := tokenSeconds } := by
  cases henabled : after.rememberMe.enabled with
  | false => simp [sessionLimits, policyLimits, henabled, Limits.rememberEnabled]
  | true =>
    have hroles : after.rememberMe.roleExcluded site roles = true := by
      simpa [SessionPolicyConfig.remembers, henabled] using h
    have hdur := after.rememberMe.duration_bounds
    have habs := after.absolute_bound
    have hpos : 0 < after.absoluteLifetime := by omega
    have hne : min rememberMaxSeconds after.rememberMe.durationSeconds ≠ 0 := by
      simp only [rememberMaxSeconds]; omega
    have hwindow : 0 < min (min rememberMaxSeconds after.rememberMe.durationSeconds)
        after.absoluteLifetime := by simp only [rememberMaxSeconds]; omega
    simp only [sessionLimits, policyLimits, henabled, hroles, hne, hpos, hwindow,
      Limits.rememberEnabled, Limits.withoutRemember, if_false, if_true, decide_true, Bool.and_self,
      Bool.true_eq_false]

/-- A sign-in that is remembered gets a token for the remembered duration, within the absolute
lifetime. -/
theorem sessionLifetime_of_remembers (tokenSeconds : Nat) (requested blocked : Bool)
    (h : before.remembers site roles = true) :
    sessionLifetime tokenSeconds (rememberDecision site before roles requested blocked) =
      if requested = true ∧ blocked = false then
        min before.rememberMe.durationSeconds before.absoluteLifetime
      else tokenSeconds := by
  obtain ⟨henabled, hroles⟩ : before.rememberMe.enabled = true ∧
      before.rememberMe.roleExcluded site roles = false := by
    simpa [SessionPolicyConfig.remembers] using h
  have hdur := before.rememberMe.duration_bounds
  have habs := before.absolute_bound
  have hwindow : rememberWindowSeconds before =
      min before.rememberMe.durationSeconds before.absoluteLifetime := by
    have hmin : min rememberMaxSeconds before.rememberMe.durationSeconds =
        before.rememberMe.durationSeconds := Nat.min_eq_right hdur.2
    have hne : before.rememberMe.durationSeconds ≠ 0 := by omega
    have hpos : 0 < before.absoluteLifetime := by omega
    simp [rememberWindowSeconds, policyLimits, henabled, hmin, hne, hpos]
  cases requested <;> cases blocked
  case true.false =>
    have hdecision : rememberDecision site before roles true false =
        min before.rememberMe.durationSeconds before.absoluteLifetime := by
      simp [rememberDecision, henabled, hroles, hwindow, rememberMaxSeconds]
      omega
    have hpos : 0 < min before.rememberMe.durationSeconds before.absoluteLifetime := by omega
    simp only [sessionLifetime, hdecision, hpos, if_true, rememberMaxSeconds, and_self]
    omega
  all_goals simp [sessionLifetime, rememberDecision]

theorem sessionLifetime_of_not_remembers (tokenSeconds : Nat) (requested blocked : Bool)
    (h : after.remembers site roles = false) :
    sessionLifetime tokenSeconds (rememberDecision site after roles requested blocked) =
      tokenSeconds := by
  have hzero : rememberDecision site after roles requested blocked = 0 := by
    cases henabled : after.rememberMe.enabled with
    | false => simp [rememberDecision, henabled]
    | true =>
      have hroles : after.rememberMe.roleExcluded site roles = true := by
        simpa [SessionPolicyConfig.remembers, henabled] using h
      simp [rememberDecision, henabled, hroles]
  simp [sessionLifetime, hzero]

theorem expired_mono {now short long : Nat} {since stamped : Option Nat} (hpos : 0 < short)
    (h : short ≤ long) (hlong : expired now long since stamped = true) :
    expired now short since stamped = true := by
  cases since with
  | none => exact hlong
  | some t =>
    have hpos' : 0 < long := by omega
    simp only [expired, hpos, hpos', if_true, decide_eq_true_eq] at hlong ⊢
    have := Nat.mul_le_mul_right second h
    omega

theorem isActive_mono {limits limits' : Limits} {row : Row} {now : Nat}
    (hpos : 0 < (limitsForRow limits row).1 ∧ 0 < (limitsForRow limits row).2)
    (hidle : (limitsForRow limits row).1 ≤ (limitsForRow limits' row).1)
    (habs : (limitsForRow limits row).2 ≤ (limitsForRow limits' row).2)
    (h : isActive limits row now = none) : isActive limits' row now = none := by
  have hrevoked := revoked_of_isActive h
  have hparts : expired now (limitsForRow limits row).2 row.createdAt row.absoluteExpiryAt = false ∧
      expired now (limitsForRow limits row).1 row.lastActiveAt row.idleExpiryAt = false := by
    simp only [isActive, hrevoked] at h
    cases h1 : expired now (limitsForRow limits row).2 row.createdAt row.absoluteExpiryAt <;>
      cases h2 : expired now (limitsForRow limits row).1 row.lastActiveAt row.idleExpiryAt <;>
      simp_all
  have habs' : expired now (limitsForRow limits' row).2 row.createdAt
    row.absoluteExpiryAt = false := by
    by_contra hne
    have := expired_mono hpos.2 habs (by simpa using hne)
    simp [hparts.1] at this
  have hidle' : expired now (limitsForRow limits' row).1 row.lastActiveAt
    row.idleExpiryAt = false := by
    by_contra hne
    have := expired_mono hpos.1 hidle (by simpa using hne)
    simp [hparts.2] at this
  simp [isActive, hrevoked, habs', hidle']

theorem strictest_le_iff {a b c : Nat} (ha : 0 < a) (hb : 0 < b) :
    strictest a b ≤ c ↔ a ≤ c ∨ b ≤ c := by
  simp only [strictest, Nat.ne_of_gt ha, Nat.ne_of_gt hb, if_false]
  omega

/-- **Turning Remember me off, or excluding a role, shortens what is alive exactly as long as the
remembered duration is no shorter than the standard limits that take its place.** -/
theorem onlyShortens_iff (site : Site) (before after : SessionPolicyConfig)
    (hsame : SameDurations before after) (roles : List String)
    (hon : before.remembers site roles = true) (hoff : after.remembers site roles = false)
    (tokenHours : Int) (row : Row) (requested blocked : Bool) :
    OnlyShortens site before after roles (boundedTokenSeconds tokenHours) row requested blocked ↔
      RememberedIsLongest before (boundedTokenSeconds tokenHours) row requested blocked := by
  have ht := boundedTokenSeconds_pos tokenHours
  generalize boundedTokenSeconds tokenHours = t at ht ⊢
  have hbefore := sessionLimits_of_remembers t hon
  have hafter := sessionLimits_of_not_remembers t hoff
  rw [hsame.idleTimeout, hsame.absoluteLifetime, hsame.idleSeconds] at hafter
  have hdur := before.rememberMe.duration_bounds.1
  have hidle := before.idle_bound
  have habs := before.absolute_bound
  have hstrict := strictIdle_pos before
  have hle := strictIdle_le_rememberedIdle before
  have hremembered := rememberedIdle_pos before
  have htoken := strictest_le_iff (c := before.rememberMe.durationSeconds)
    (show 0 < before.absoluteLifetime by omega) ht
  have htoken' := strictest_le_iff (c := before.absoluteLifetime)
    (show 0 < before.absoluteLifetime by omega) ht
  have htokenPos : 0 < strictest before.absoluteLifetime t := by
    simp only [strictest]
    split <;> [omega; split <;> omega]
  -- the two pairs of limits the row is judged by
  have hlong : limitsForRow (sessionLimits site before roles t) row =
      if row.remember then (min before.rememberedIdle
        (min before.rememberMe.durationSeconds before.absoluteLifetime),
        min before.rememberMe.durationSeconds before.absoluteLifetime)
      else (before.idleTimeout, before.absoluteLifetime) := by
    rw [hbefore]
    cases hrow : row.remember
    · simp [limitsForRow, hrow]
    · simp only [limitsForRow, hrow, if_true]
      rw [if_pos (by omega), if_pos (by omega)]
  have hshort : limitsForRow (sessionLimits site after roles t) row =
      if row.remember then (before.strictIdle, strictest before.absoluteLifetime t)
      else (before.idleTimeout, before.absoluteLifetime) := by
    rw [hafter]
    cases hrow : row.remember <;> simp [limitsForRow, hrow, SessionPolicyConfig.strictIdle]
  have hsignIn : sessionLifetime t (rememberDecision site after roles requested blocked) ≤
        sessionLifetime t (rememberDecision site before roles requested blocked) ↔
      (requested = true → blocked = false →
        t ≤ before.rememberMe.durationSeconds ∧ t ≤ before.absoluteLifetime) := by
    rw [sessionLifetime_of_not_remembers t requested blocked hoff,
      sessionLifetime_of_remembers t requested blocked hon]
    cases requested <;> cases blocked <;> simp
  constructor
  · intro h
    have habsolute := h.absolute
    have hinactive := h.idle
    rw [hlong, hshort] at habsolute hinactive
    refine ⟨?_, ?_, hsignIn.1 h.token⟩
    · intro hrow
      simp only [hrow, if_true] at habsolute
      exact (htoken.1 (by omega)).symm
    · intro hrow
      simp only [hrow, if_true] at hinactive
      omega
  · intro h
    have hlimits : (limitsForRow (sessionLimits site after roles t) row).1 ≤
          (limitsForRow (sessionLimits site before roles t) row).1 ∧
        (limitsForRow (sessionLimits site after roles t) row).2 ≤
          (limitsForRow (sessionLimits site before roles t) row).2 ∧
        0 < (limitsForRow (sessionLimits site after roles t) row).1 ∧
        0 < (limitsForRow (sessionLimits site after roles t) row).2 := by
      rw [hlong, hshort]
      cases hrow : row.remember with
      | false => simp only [Bool.false_eq_true, if_false]; omega
      | true =>
        have hidle' := h.row_idle hrow
        have habs' := htoken.2 (h.row_absolute hrow).symm
        have habs'' := htoken'.2 (Or.inl (Nat.le_refl _))
        simp only [if_true]
        omega
    exact ⟨hlimits.1, hlimits.2.1, fun now => isActive_mono hlimits.2.2 hlimits.1 hlimits.2.1,
      hsignIn.2 h.token⟩

def sixHours (enabled : Bool) : SessionPolicyConfig :=
  { rememberMe := { enabled, durationSeconds := 21600, duration_bounds := by decide,
                    idle_bounds := by simp }
    idle_bound := by decide
    absolute_bound := by decide }

def oneDay (enabled : Bool) : SessionPolicyConfig :=
  { rememberMe := { enabled, duration_bounds := by decide, idle_bounds := by simp }
    idle_bound := by decide
    absolute_bound := by decide }

def plainSite : Site := ⟨id, id, id⟩

def rememberedRow : Row :=
  { sid := "s", username := "u", createdAt := some 0, lastActiveAt := some (24000 * second),
    remember := true }

/-- With six hours for remembered sessions and twelve for the others, a session that ended after
six hours comes back to life when Remember me is turned off. -/
theorem lives_on_after_turning_off :
    ¬ OnlyShortens plainSite (sixHours true) (sixHours false) ["analyst"] (boundedTokenSeconds 12)
      rememberedRow true false := by
  intro h
  have := h.life (25000 * second) (by decide)
  revert this
  decide

theorem onlyShortens_oneDay :
    OnlyShortens plainSite (oneDay true) (oneDay false) ["analyst"] (boundedTokenSeconds 12)
      rememberedRow true false :=
  (onlyShortens_iff plainSite (oneDay true) (oneDay false) ⟨rfl, rfl, rfl, rfl⟩ ["analyst"]
    (by decide) (by decide) 12 rememberedRow true false).2
    ⟨fun _ => .inl (by decide), fun _ => ⟨by decide, by decide⟩, fun _ _ => ⟨by decide, by decide⟩⟩

end AgenticKibana.Sessions
