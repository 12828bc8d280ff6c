import AgenticKibana.Breaker.Model
import AgenticKibana.Library.Machine

/-!
# When a breaker closes

A key that is not closed should close on enough probes that succeed, or when nothing was
recorded for it for a long time.  The second is judged by the last outcome in its window,
and a probe is not put into the window: a provider whose probes all fail looks silent.
-/

namespace AgenticKibana.Breaker

open AgenticKibana.Library List

/-- An outcome that was folded into a row; `probe` if it was the result of a half-open probe, or a
success seen on an open key, which counts as one. -/
structure Entry where
  key : String
  time : ℚ
  ok : Bool
  probe : Bool

def history (key : String) (log : List Entry) : List Entry := log.filter fun e => e.key == key

def Probed (policy : Policy) (hist : List Entry) : Prop :=
  ∃ pre post, hist = pre ++ post ∧ post.length = policy.probes ∧
    ∀ e ∈ post, e.ok = true ∧ e.probe = true

/-- All outcomes of a key are too old. -/
def Silent (policy : Policy) (hist : List Entry) (now : ℚ) : Prop :=
  ∀ e ∈ hist, policy.maxAge < now - e.time

/-- The rows with the outcomes that were folded into them. -/
structure World where
  health : Health
  log : List Entry
  clock : ℚ

inductive Call where
  | record (r : Report)
  | allows (k : Check)

def Call.now : Call → ℚ
  | .record r => r.now
  | .allows k => k.now

def Health.stateOf (h : Health) (key : String) : BreakerState :=
  ((h.breakers.get? key).map Row.state).getD .closed

section Folding

variable (policy : Policy)

def probing (h : Health) (key : String) (scope : Scope) (o : Outcome) : Bool :=
  match (h.breakerRow policy key scope).breakers.get? key with
  | some row =>
    match (settle policy o.now (row, [])).1.state with
    | .halfOpen => true
    | .opened => o.ok
    | .closed => false
  | none => false

/-- One round of the loop of `_record_outcome`, logged. -/
def foldLogged (key : String) (scope : Scope) (o : Outcome) (h : Health) (log : List Entry) :
    Health × List Entry :=
  (h.foldKey policy key scope o, log ++ [⟨key, o.now, o.ok, probing policy h key scope o⟩])

def recordLogged (lower : String → String) (r : Report) (h : Health) (log : List Entry) :
    Health × List Entry :=
  if ignored lower r.provider r.model ∨ r.failureClass = "not_configured" then (h, log)
  else if policy.enabled then
    let (h1, log1) := foldLogged policy r.coarse .provider r.toCoarse h log
    foldLogged policy r.fine .role r.toFine h1 log1
  else (h, log)

def callMachine (lower : String → String) : Machine World Call where
  start w := w.health = .empty ∧ w.log = [] ∧ w.clock = 0
  step w call :=
    if call.now < w.clock then none
    else match call with
      | .record r =>
        let (h, log) := recordLogged policy lower r w.health w.log
        some ⟨h, log, r.now⟩
      | .allows k => some ⟨w.health.admitted policy lower k, w.log, k.now⟩

/-- The last outcome in the window of a key that is not closed is no older than all outcomes of the
key, as far as the maximum age goes. -/
def Fresh (h : Health) (log : List Entry) (key : String) (now : ℚ) : Prop :=
  ∀ row, h.breakers.get? key = some row → row.state ≠ .closed → ∀ t ok,
    row.window.getLast? = some (t, ok) → policy.maxAge < now - t →
      Silent policy (history key log) now

/-- No key is looked at when a probe was recorded for it after all outcomes in its window had become
too old. -/
def FreshRun (lower : String → String) (w : World) (call : Call) : Prop :=
  match call with
  | .record r =>
    ¬ (ignored lower r.provider r.model = true ∨ r.failureClass = "not_configured") →
      policy.enabled = true → Fresh policy w.health w.log r.coarse r.now ∧
        Fresh policy (foldLogged policy r.coarse .provider r.toCoarse w.health w.log).1
          (foldLogged policy r.coarse .provider r.toCoarse w.health w.log).2 r.fine r.now
  | .allows k =>
    ¬ (policy.enabled = false ∨ ignored lower k.provider k.model = true) →
      Fresh policy w.health w.log k.coarse k.now ∧
        Fresh policy (w.health.update k.coarse (admitRow policy k.now)) w.log k.fine k.now

end Folding

/-! ### What a row keeps -/

section Rows

variable {policy : Policy} {hist : List Entry} {clock now : ℚ} {row : Row} {ts : List Transition}

structure Row.Sound (policy : Policy) (hist : List Entry) (clock : ℚ) (row : Row) : Prop where
  counted : row.state ≠ .closed → ∃ pre post, hist = pre ++ post ∧
    post.length = row.halfOpenSuccesses ∧ ∀ e ∈ post, e.ok = true ∧ e.probe = true
  few : row.state ≠ .closed → row.halfOpenSuccesses < policy.probes
  opened : row.state = .opened → row.halfOpenSuccesses = 0
  half : row.state = .halfOpen → row.openUntil = 0 ∧ row.window ≠ []
  silent : row.state ≠ .closed → row.window = [] → Silent policy hist clock

theorem Silent.mono (h : Silent policy hist clock) (hle : clock ≤ now) :
    Silent policy hist now :=
  fun e he => lt_of_lt_of_le (h e he) (sub_le_sub_right hle e.time)

theorem Row.Sound.of_closed (h : row.state = .closed) : row.Sound policy hist clock where
  counted hne := absurd h hne
  few hne := absurd h hne
  opened heq := by rw [h] at heq; cases heq
  half heq := by rw [h] at heq; cases heq
  silent hne := absurd h hne

theorem Row.Sound.later (h : row.Sound policy hist clock) (hle : clock ≤ now) :
    row.Sound policy hist now :=
  ⟨h.counted, h.few, h.opened, h.half, fun hne hempty => (h.silent hne hempty).mono hle⟩

theorem probes_pos (policy : Policy) : 0 < policy.probes :=
  lt_of_lt_of_le Nat.zero_lt_one (Nat.le_max_left _ _)

@[simp] theorem transition_state (next : BreakerState) (reason : Reason) (w : Work) :
    (transition policy next reason w).1.state = next := by
  unfold transition
  dsimp only
  split <;> rfl

@[simp] theorem transition_window (next : BreakerState) (reason : Reason) (w : Work) :
    (transition policy next reason w).1.window = w.1.window := by
  unfold transition
  dsimp only
  split <;> rfl

@[simp] theorem transition_halfOpenSuccesses (next : BreakerState) (reason : Reason) (w : Work) :
    (transition policy next reason w).1.halfOpenSuccesses = w.1.halfOpenSuccesses := by
  unfold transition
  dsimp only
  split <;> rfl

theorem transition_openUntil {next : BreakerState} (h : next ≠ .opened) (reason : Reason)
    (w : Work) :
    (transition policy next reason w).1.openUntil = 0 := by
  cases next with
  | opened => exact absurd rfl h
  | closed | halfOpen =>
    unfold transition
    dsimp only
    split <;> rfl

@[simp] theorem openRow_state (jitter : ℚ) (reason : Reason) (w : Work) :
    (openRow policy now jitter reason w).1.state = .opened := transition_state _ _ _

@[simp] theorem openRow_window (jitter : ℚ) (reason : Reason) (w : Work) :
    (openRow policy now jitter reason w).1.window = w.1.window := transition_window _ _ _

@[simp] theorem openRow_halfOpenSuccesses (jitter : ℚ) (reason : Reason) (w : Work) :
    (openRow policy now jitter reason w).1.halfOpenSuccesses = 0 :=
  transition_halfOpenSuccesses _ _ _

theorem drain_eq (window : List (ℚ × Bool)) : drain policy now window = window ∨
    drain policy now window = [] ∧
      ∃ t ok, window.getLast? = some (t, ok) ∧ policy.maxAge < now - t := by
  unfold drain
  cases hlast : window.getLast? with
  | none => exact .inl rfl
  | some sample =>
    obtain ⟨t, ok⟩ := sample
    dsimp only
    split
    · rename_i hold
      exact .inr ⟨rfl, t, ok, rfl, hold⟩
    · exact .inl rfl

theorem Row.Sound.settle (h : row.Sound policy hist clock) (hle : clock ≤ now) (hnow : 0 ≤ now)
    (hfresh : row.state ≠ .closed → ∀ t ok, row.window.getLast? = some (t, ok) →
      policy.maxAge < now - t → Silent policy hist now) :
    (settle policy now (row, ts)).1.Sound policy hist now ∧
    ((settle policy now (row, ts)).1.state = row.state ∨
      (settle policy now (row, ts)).1.state = .closed ∧ Silent policy hist now) ∧
    ((settle policy now (row, ts)).1.state ≠ .closed →
      (settle policy now (row, ts)).1.openUntil ≤ now →
        (settle policy now (row, ts)).1.window ≠ []) := by
  -- nothing is left in the window only if nothing was recorded for long
  have hempty : row.state ≠ .closed → drain policy now row.window = [] →
      Silent policy hist now := by
    intro hne hnone
    rcases @drain_eq policy now row.window with heq | ⟨-, t, ok, hlast, hold⟩
    · exact (h.silent hne (heq.symm.trans hnone)).mono hle
    · exact hfresh hne t ok hlast hold
  unfold Breaker.settle
  dsimp only
  split
  · rename_i hclose
    obtain ⟨hnone, hne, -⟩ := hclose
    refine ⟨.of_closed (transition_state _ _ _), .inr ⟨transition_state _ _ _, ?_⟩, ?_⟩
    · exact hempty hne (List.isEmpty_iff.mp hnone)
    · intro hne'
      exact absurd (transition_state _ _ _) hne'
  · rename_i hkeep
    refine ⟨⟨h.counted, h.few, h.opened, ?_, hempty⟩, .inl rfl, ?_⟩
    · intro hhalf
      obtain ⟨hzero, hwindow⟩ := h.half hhalf
      refine ⟨hzero, fun hnone => hkeep ⟨List.isEmpty_iff.mpr hnone, ?_, ?_⟩⟩
      · rw [hhalf]
        simp
      · rw [hzero]
        exact hnow
    · intro hne huntil hnone
      exact hkeep ⟨List.isEmpty_iff.mpr hnone, hne, huntil⟩

theorem trim_ne_nil {window : List (ℚ × Bool)} (h : window ≠ []) : trim policy window ≠ [] := by
  have hsize : 2 ≤ policy.window := Nat.le_max_left _ _
  have hlen := length_pos_iff.mpr h
  intro hnil
  have hzero := congrArg List.length hnil
  simp only [trim, length_drop, length_nil] at hzero
  omega

theorem Row.Sound.probeSucceeded {e : Entry} (hne : row.state ≠ .closed)
    (hcounted : ∃ pre post, hist = pre ++ post ∧ post.length = row.halfOpenSuccesses ∧
      ∀ e ∈ post, e.ok = true ∧ e.probe = true)
    (hfew : row.halfOpenSuccesses < policy.probes) (hhalf : row.state = .halfOpen)
    (huntil : row.openUntil = 0) (hwindow : row.window ≠ []) (he : e.ok = true ∧ e.probe = true) :
    (probeSucceeded policy (row, ts)).1.Sound policy (hist ++ [e]) now ∧
    ((probeSucceeded policy (row, ts)).1.state = .closed → Probed policy (hist ++ [e])) := by
  obtain ⟨pre, post, rfl, hlen, hpost⟩ := hcounted
  have hnext : ∃ pre' post', pre ++ post ++ [e] = pre' ++ post' ∧
      post'.length = row.halfOpenSuccesses + 1 ∧ ∀ e ∈ post', e.ok = true ∧ e.probe = true := by
    refine ⟨pre, post ++ [e], append_assoc _ _ _, by simp [hlen], ?_⟩
    intro e' he'
    rcases mem_append.mp he' with he' | he'
    · exact hpost e' he'
    · rw [mem_singleton.mp he']
      exact he
  unfold Breaker.probeSucceeded
  dsimp only
  split
  · rename_i hlt
    refine ⟨⟨fun _ => hnext, fun _ => hlt, ?_, fun _ => ⟨huntil, hwindow⟩, ?_⟩, ?_⟩
    · intro hopened
      dsimp only at hopened
      rw [hhalf] at hopened
      cases hopened
    · exact fun _ hnone => absurd hnone hwindow
    · intro hclosed
      exact absurd hclosed hne
  · rename_i hge
    refine ⟨.of_closed (transition_state _ _ _), fun _ => ?_⟩
    obtain ⟨pre', post', heq, hlen', hall⟩ := hnext
    exact ⟨pre', post', heq, by omega, hall⟩

/-- **Scoring an outcome** closes a row only if it was the last successful probe needed. -/
theorem Row.Sound.score {o : Outcome} {e : Entry} (h : row.Sound policy hist now)
    (hok : e.ok = o.ok)
    (hprobe : row.state = .halfOpen ∨ row.state = .opened ∧ o.ok = true → e.probe = true) :
    (score policy o (row, ts)).1.Sound policy (hist ++ [e]) now ∧
    (row.state ≠ .closed → (score policy o (row, ts)).1.state = .closed →
      Probed policy (hist ++ [e])) := by
  -- a row that was opened has seen no probe yet
  have hopenRow : ∀ (jitter : ℚ) (reason : Reason) (w : Work), w.1.window ≠ [] →
      (openRow policy o.now jitter reason w).1.Sound policy (hist ++ [e]) now := by
    intro jitter reason w hwindow
    refine ⟨fun _ => ⟨hist ++ [e], [], by simp, ?_, by simp⟩, fun _ => ?_, fun _ => ?_, ?_, ?_⟩
    · exact (openRow_halfOpenSuccesses _ _ _).symm
    · rw [openRow_halfOpenSuccesses]
      exact probes_pos policy
    · exact openRow_halfOpenSuccesses _ _ _
    · intro hhalf
      rw [openRow_state] at hhalf
      cases hhalf
    · intro _ hnone
      rw [openRow_window] at hnone
      exact absurd hnone hwindow
  unfold Breaker.score
  dsimp only
  split
  · rename_i hhalf
    have hne : row.state ≠ .closed := by simp [hhalf]
    obtain ⟨huntil, hwindow⟩ := h.half hhalf
    split
    · rename_i ho
      have hsucceeded := @Row.Sound.probeSucceeded policy hist now row ts e hne (h.counted hne)
        (h.few hne) hhalf huntil hwindow ⟨hok.trans ho, hprobe (.inl hhalf)⟩
      exact ⟨hsucceeded.1, fun _ => hsucceeded.2⟩
    · refine ⟨hopenRow _ _ _ hwindow, fun _ hclosed => ?_⟩
      rw [openRow_state] at hclosed
      cases hclosed
  · have hwindow : trim policy (row.window ++ [(o.now, o.ok)]) ≠ [] := trim_ne_nil (by simp)
    split
    · rename_i hopened
      have hne : row.state ≠ .closed := by simp [hopened]
      split
      · rename_i ho
        generalize hw : transition policy .halfOpen .observedSuccess ({ row with
          window := trim policy (row.window ++ [(o.now, o.ok)]), halfOpenSuccesses := 0 }, ts) = w
        have hsucceeded := @Row.Sound.probeSucceeded policy hist now w.1 w.2 e (by simp [← hw])
          ⟨hist, [], by simp, by simp [← hw], by simp⟩ (by simpa [← hw] using probes_pos policy)
          (by simp [← hw]) (by rw [← hw]; exact transition_openUntil (by simp) _ _)
          (by simpa [← hw] using hwindow) ⟨hok.trans ho, hprobe (.inr ⟨hopened, ho⟩)⟩
        exact ⟨hsucceeded.1, fun _ => hsucceeded.2⟩
      · refine ⟨⟨fun _ => ⟨hist ++ [e], [], by simp, ?_, by simp⟩, fun _ => h.few hne,
          fun _ => h.opened hopened, ?_, fun _ hnone => absurd hnone hwindow⟩, ?_⟩
        · exact (h.opened hopened).symm
        · intro hhalf
          dsimp only at hhalf
          rw [hopened] at hhalf
          cases hhalf
        · intro _ hclosed
          exact absurd hclosed hne
    · rename_i hhalf hopened
      have hclosed : row.state = .closed := by
        cases hstate : row.state with
        | closed => rfl
        | opened => exact absurd hstate hopened
        | halfOpen => exact absurd hstate hhalf
      split
      · exact ⟨hopenRow _ _ _ hwindow, fun hne => absurd hclosed hne⟩
      split
      · exact ⟨hopenRow _ _ _ hwindow, fun hne => absurd hclosed hne⟩
      · exact ⟨.of_closed hclosed, fun hne => absurd hclosed hne⟩

theorem Row.Sound.admitRow (h : row.Sound policy hist clock) (hle : clock ≤ now) (hnow : 0 ≤ now)
    (hfresh : row.state ≠ .closed → ∀ t ok, row.window.getLast? = some (t, ok) →
      policy.maxAge < now - t → Silent policy hist now) :
    (admitRow policy now (row, ts)).1.Sound policy hist now ∧
    (row.state ≠ .closed → (admitRow policy now (row, ts)).1.state = .closed →
      Silent policy hist now) := by
  obtain ⟨hsettled, hstate, hwindow⟩ := @Row.Sound.settle policy hist clock now row ts h hle hnow
    hfresh
  unfold Breaker.admitRow
  dsimp only
  split
  · rename_i hwaited
    obtain ⟨hopened, huntil⟩ := hwaited
    have hne : (Breaker.settle policy now (row, ts)).1.state ≠ .closed := by simp [hopened]
    have hnonempty := hwindow hne huntil
    refine ⟨⟨?_, ?_, ?_, ?_, ?_⟩, ?_⟩
    · intro _
      rw [transition_halfOpenSuccesses]
      exact hsettled.counted hne
    · intro _
      rw [transition_halfOpenSuccesses]
      exact hsettled.few hne
    · intro hopened'
      rw [transition_state] at hopened'
      cases hopened'
    · intro _
      rw [transition_window]
      exact ⟨transition_openUntil (by simp) _ _, hnonempty⟩
    · intro _ hnone
      rw [transition_window] at hnone
      exact absurd hnone hnonempty
    · intro _ hclosed
      rw [transition_state] at hclosed
      cases hclosed
  · refine ⟨hsettled, fun hne hclosed => ?_⟩
    rcases hstate with hstate | ⟨-, hsilent⟩
    · exact absurd (hstate.symm.trans hclosed) hne
    · exact hsilent

end Rows

/-! ### The rows of a registry -/

section Registry

variable {policy : Policy} {h : Health} {log : List Entry} {clock now : ℚ} {key : String}

def Health.Sound (policy : Policy) (h : Health) (log : List Entry) (clock : ℚ) : Prop :=
  ∀ key row, h.breakers.get? key = some row → row.Sound policy (history key log) clock

theorem stateOf_of_get {row : Row} (h' : h.breakers.get? key = some row) :
    h.stateOf key = row.state := by
  unfold Health.stateOf
  rw [h']
  rfl

theorem stateOf_of_none (h' : h.breakers.get? key = none) : h.stateOf key = .closed := by
  unfold Health.stateOf
  rw [h']
  rfl

theorem store_get (h : Health) (key key' : String) (w : Work) :
    (h.store key w).breakers.get? key' = if key' = key then some w.1 else h.breakers.get? key' :=
  Dict.get?_set _ _ _ _

theorem update_get (h : Health) (key key' : String) (f : Work → Work) :
    (h.update key f).breakers.get? key' =
      if key' = key then (h.breakers.get? key).map fun row => (f (row, [])).1
      else h.breakers.get? key' := by
  unfold Health.update
  cases hrow : h.breakers.get? key with
  | none =>
    by_cases heq : key' = key
    · rw [if_pos heq, heq, hrow]
      rfl
    · rw [if_neg heq]
  | some row => exact store_get _ _ _ _

theorem evictIfNeeded_get (breakers : Dict String Row) (key : String) :
    (evictIfNeeded breakers).get? key = breakers.get? key ∨
      (evictIfNeeded breakers).get? key = none ∧
        ∃ row, breakers.get? key = some row ∧ row.state = .closed := by
  unfold evictIfNeeded
  dsimp only
  split
  · exact .inl rfl
  cases hrow : breakers.get? key with
  | none =>
    refine .inl ?_
    rw [Dict.get?_filter, hrow]
    rfl
  | some row =>
    rw [Dict.get?_filter, hrow]
    rw [Option.filter_some]
    split
    · exact .inl rfl
    · rename_i hevicted
      refine .inr ⟨rfl, row, rfl, ?_⟩
      simp only [Bool.not_eq_true, Bool.not_eq_false', contains_iff_mem] at hevicted
      obtain ⟨e, he, rfl⟩ := List.mem_map.mp hevicted
      have hmem := (mergeSort_perm _ _).mem_iff.mp (mem_of_mem_take he)
      obtain ⟨hentry, hclosed⟩ := mem_filter.mp hmem
      rw [Dict.get?_eq_some_iff.mpr hentry] at hrow
      cases hrow
      simpa using hclosed

theorem breakerRow_get (h : Health) (key : String) (scope : Scope) (key' : String) :
    (∃ row, (h.breakerRow policy key scope).breakers.get? key' = some row ∧
      (h.breakers.get? key' = some row ∨
        h.breakers.get? key' = none ∧ key' = key ∧ row.state = .closed)) ∨
    (h.breakerRow policy key scope).breakers.get? key' = none ∧ h.stateOf key' = .closed ∧
      key' ≠ key := by
  unfold Health.breakerRow
  split
  · rename_i hcontains
    cases hrow : h.breakers.get? key' with
    | some row => exact .inl ⟨row, rfl, .inl rfl⟩
    | none =>
      refine .inr ⟨rfl, stateOf_of_none hrow, ?_⟩
      rintro rfl
      obtain ⟨row, hrow'⟩ := Dict.contains_iff.mp hcontains
      rw [hrow] at hrow'
      cases hrow'
  · rename_i hcontains
    have hnone : h.breakers.get? key = none := by
      cases hrow : h.breakers.get? key with
      | none => rfl
      | some row => exact absurd (Dict.contains_iff.mpr ⟨row, hrow⟩) hcontains
    rw [Dict.get?_set]
    by_cases heq : key' = key
    · rw [if_pos heq]
      exact .inl ⟨_, rfl, .inr ⟨heq ▸ hnone, heq, rfl⟩⟩
    · rw [if_neg heq]
      rcases evictIfNeeded_get h.breakers key' with hsame | ⟨hgone, row, hrow, hclosed⟩
      · rw [hsame]
        cases hrow : h.breakers.get? key' with
        | some row => exact .inl ⟨row, rfl, .inl rfl⟩
        | none => exact .inr ⟨rfl, stateOf_of_none hrow, heq⟩
      · exact .inr ⟨hgone, (stateOf_of_get hrow).trans hclosed, heq⟩

variable {e : Entry}

theorem history_append_of_ne (he : e.key ≠ key) : history key (log ++ [e]) = history key log := by
  unfold history
  rw [filter_append]
  simp [he]

theorem history_append_of_eq (he : e.key = key) :
    history key (log ++ [e]) = history key log ++ [e] := by
  unfold history
  rw [filter_append]
  simp [he]

/-- What may make a key closed while the log grows: enough probes that succeed, or no outcome for
long. -/
def Cleared (policy : Policy) (key : String) (before after : List Entry) (now : ℚ) : Prop :=
  (∃ log, before <+: log ∧ log <+: after ∧ Probed policy (history key log)) ∨
    Silent policy (history key before) now

theorem Cleared.mono {before after before' after' : List Entry}
    (h : Cleared policy key before after now) (hbefore : before' <+: before)
    (hafter : after <+: after') : Cleared policy key before' after' now := by
  rcases h with ⟨log, hpre, hpost, hprobed⟩ | hsilent
  · exact .inl ⟨log, hbefore.trans hpre, hpost.trans hafter, hprobed⟩
  · refine .inr fun e he => hsilent e ?_
    obtain ⟨hmem, hkey⟩ := mem_filter.mp he
    exact mem_filter.mpr ⟨hbefore.subset hmem, hkey⟩

/-- **Folding an outcome** keeps the rows sound, and closes a key only for cause. -/
theorem Health.Sound.foldKey (hsound : h.Sound policy log clock) {scope : Scope} {o : Outcome}
    (hle : clock ≤ o.now) (hnow : 0 ≤ o.now) (hfresh : Fresh policy h log key o.now) :
    (foldLogged policy key scope o h log).1.Sound policy (foldLogged policy key scope o h log).2
      o.now ∧
    ∀ key', h.stateOf key' ≠ .closed →
      (foldLogged policy key scope o h log).1.stateOf key' = .closed →
        Cleared policy key' log (foldLogged policy key scope o h log).2 o.now := by
  unfold foldLogged Health.foldKey
  dsimp only
  generalize hentry : (⟨key, o.now, o.ok, probing policy h key scope o⟩ : Entry) = e
  have hkey : e.key = key := by rw [← hentry]
  -- the row that is folded
  obtain ⟨row, hrow, hfrom⟩ : ∃ row, (h.breakerRow policy key scope).breakers.get? key = some row ∧
      (h.breakers.get? key = some row ∨ h.breakers.get? key = none ∧ row.state = .closed) := by
    rcases @breakerRow_get policy h key scope key with ⟨row, hrow, hsame | ⟨hnone, -, hclosed⟩⟩ |
      ⟨-, -, hne⟩
    · exact ⟨row, hrow, .inl hsame⟩
    · exact ⟨row, hrow, .inr ⟨hnone, hclosed⟩⟩
    · exact absurd rfl hne
  have hrowSound : row.Sound policy (history key log) clock := by
    rcases hfrom with hsame | ⟨-, hclosed⟩
    · exact hsound key row hsame
    · exact .of_closed hclosed
  have hrowFresh : row.state ≠ .closed → ∀ t ok, row.window.getLast? = some (t, ok) →
      policy.maxAge < o.now - t → Silent policy (history key log) o.now := by
    intro hne
    rcases hfrom with hsame | ⟨-, hclosed⟩
    · exact hfresh row hsame hne
    · exact absurd hclosed hne
  obtain ⟨hsettled, hstate, -⟩ := @Row.Sound.settle policy _ _ _ row [] hrowSound hle hnow hrowFresh
  have hprobe : (settle policy o.now (row, [])).1.state = .halfOpen ∨
      (settle policy o.now (row, [])).1.state = .opened ∧ o.ok = true → e.probe = true := by
    intro hprobing
    rw [← hentry]
    simp only [probing, hrow]
    rcases hprobing with hhalf | ⟨hopened, ho⟩
    · rw [hhalf]
    · rw [hopened]
      exact ho
  obtain ⟨hscored, hprobed⟩ := @Row.Sound.score policy _ _ (settle policy o.now (row, [])).1
    (settle policy o.now (row, [])).2 o e hsettled (by rw [← hentry]) hprobe
  refine ⟨?_, ?_⟩
  · intro key' row' hrow'
    rw [update_get] at hrow'
    by_cases heq : key' = key
    · rw [if_pos heq, hrow, Option.map_some, Option.some.injEq] at hrow'
      rw [heq, history_append_of_eq hkey, ← hrow']
      exact hscored
    · rw [if_neg heq] at hrow'
      rw [history_append_of_ne (by rw [hkey]; exact fun h => heq h.symm)]
      rcases @breakerRow_get policy h key scope key' with ⟨row1, hrow1, hsame | ⟨-, hsame, -⟩⟩ |
        ⟨hnone, -, -⟩
      · rw [hrow1, Option.some.injEq] at hrow'
        exact (hsound key' row' (hrow' ▸ hsame)).later hle
      · exact absurd hsame heq
      · rw [hnone] at hrow'
        cases hrow'
  · intro key' hne hclosed
    by_cases heq : key' = key
    · subst heq
      rw [@stateOf_of_get _ _ _ (by rw [update_get, if_pos rfl, hrow]; rfl)] at hclosed
      rcases hfrom with hsame | ⟨hnone, -⟩
      · rw [stateOf_of_get hsame] at hne
        rcases hstate with hstate | ⟨-, hsilent⟩
        · refine .inl ⟨log ++ [e], prefix_append _ _, prefix_refl _, ?_⟩
          rw [history_append_of_eq hkey]
          exact hprobed (by rw [hstate]; exact hne) hclosed
        · exact .inr hsilent
      · exact absurd (stateOf_of_none hnone) hne
    · rcases @breakerRow_get policy h key scope key' with ⟨row1, hrow1, hsame | ⟨-, hsame, -⟩⟩ |
        ⟨-, hclosed', -⟩
      · refine absurd ?_ hne
        rw [@stateOf_of_get _ _ row1 (by rw [update_get, if_neg heq]; exact hrow1)] at hclosed
        rw [stateOf_of_get hsame]
        exact hclosed
      · exact absurd hsame heq
      · exact absurd hclosed' hne

/-- **An admission check** keeps the rows sound, and closes a key only if it was silent. -/
theorem Health.Sound.admitKey (hsound : h.Sound policy log clock) (hle : clock ≤ now)
    (hnow : 0 ≤ now)
    (hfresh : Fresh policy h log key now) :
    (h.update key (admitRow policy now)).Sound policy log now ∧
    ∀ key', h.stateOf key' ≠ .closed →
      (h.update key (admitRow policy now)).stateOf key' = .closed →
        Silent policy (history key' log) now := by
  have hadmitted : ∀ row, h.breakers.get? key = some row →
      (admitRow policy now (row, [])).1.Sound policy (history key log) now ∧
      (row.state ≠ .closed → (admitRow policy now (row, [])).1.state = .closed →
        Silent policy (history key log) now) :=
    fun row hrow => (hsound key row hrow).admitRow hle hnow (hfresh row hrow)
  refine ⟨?_, ?_⟩
  · intro key' row' hrow'
    rw [update_get] at hrow'
    by_cases heq : key' = key
    · rw [if_pos heq] at hrow'
      obtain ⟨row, hrow, rfl⟩ := Option.map_eq_some_iff.mp hrow'
      rw [heq]
      exact (hadmitted row hrow).1
    · rw [if_neg heq] at hrow'
      exact (hsound key' row' hrow').later hle
  · intro key' hne hclosed
    by_cases heq : key' = key
    · subst heq
      cases hrow : h.breakers.get? key' with
      | none => exact absurd (stateOf_of_none hrow) hne
      | some row =>
        rw [stateOf_of_get hrow] at hne
        rw [@stateOf_of_get _ _ _ (by rw [update_get, if_pos rfl, hrow]; rfl)] at hclosed
        exact (hadmitted row hrow).2 hne hclosed
    · refine absurd ?_ hne
      unfold Health.stateOf at hclosed ⊢
      rw [update_get, if_neg heq] at hclosed
      exact hclosed

end Registry

section Runs

variable {policy : Policy} {lower : String → String} {w w' : World} {call : Call}

theorem World.step_sound (hsound : w.health.Sound policy w.log w.clock) (hclock : 0 ≤ w.clock)
    (hG : FreshRun policy lower w call)
    (hstep : (callMachine policy lower).step w call = some w') :
    w'.health.Sound policy w'.log w'.clock ∧ w.clock ≤ w'.clock ∧ w'.clock = call.now ∧
    ∀ key, w.health.stateOf key ≠ .closed → w'.health.stateOf key = .closed →
      Cleared policy key w.log w'.log call.now := by
  have hsame : w.clock ≤ call.now → ∀ v : World, v = ⟨w.health, w.log, call.now⟩ →
      v.health.Sound policy v.log v.clock ∧ w.clock ≤ v.clock ∧ v.clock = call.now ∧
      ∀ key, w.health.stateOf key ≠ .closed → v.health.stateOf key = .closed →
        Cleared policy key w.log v.log call.now := by
    rintro hle v rfl
    exact ⟨fun key row hrow => (hsound key row hrow).later hle, hle, rfl,
      fun key hne hclosed => absurd hclosed hne⟩
  simp only [callMachine] at hstep
  split at hstep
  · cases hstep
  rename_i hback
  have hle : w.clock ≤ call.now := not_lt.mp hback
  have hnow : 0 ≤ call.now := hclock.trans hle
  cases call with
  | allows k =>
    simp only [Option.some.injEq] at hstep
    subst hstep
    by_cases hskip : policy.enabled = false ∨ ignored lower k.provider k.model = true
    · refine hsame hle _ ?_
      simp only [Health.admitted, if_pos hskip, Call.now]
    obtain ⟨hcoarse, hfine⟩ := hG hskip
    obtain ⟨hsound1, hclose1⟩ := hsound.admitKey hle hnow hcoarse
    obtain ⟨hsound2, hclose2⟩ := hsound1.admitKey le_rfl hnow hfine
    simp only [Health.admitted, if_neg hskip]
    refine ⟨hsound2, hle, rfl, fun key hne hclosed => .inr ?_⟩
    by_cases hmid : (w.health.update k.coarse (admitRow policy k.now)).stateOf key = .closed
    · exact hclose1 key hne hmid
    · exact hclose2 key hmid hclosed
  | record r =>
    simp only [Option.some.injEq] at hstep
    subst hstep
    unfold recordLogged
    by_cases hskip : ignored lower r.provider r.model = true ∨ r.failureClass = "not_configured"
    · rw [if_pos hskip]
      exact hsame hle _ rfl
    rw [if_neg hskip]
    by_cases henabled : policy.enabled = true
    · rw [if_pos henabled]
      obtain ⟨hcoarse, hfine⟩ := hG hskip henabled
      obtain ⟨hsound1, hclose1⟩ := @Health.Sound.foldKey _ _ _ _ _ hsound .provider r.toCoarse hle
        hnow hcoarse
      obtain ⟨hsound2, hclose2⟩ := @Health.Sound.foldKey _ _ _ _ _ hsound1 .role r.toFine le_rfl
        hnow hfine
      refine ⟨hsound2, hle, rfl, fun key hne hclosed => ?_⟩
      by_cases hmid : (foldLogged policy r.coarse .provider r.toCoarse w.health w.log).1.stateOf key
          = .closed
      · exact (hclose1 key hne hmid).mono (prefix_refl _) (prefix_append _ _)
      · exact (hclose2 key hmid hclosed).mono (prefix_append _ _) (prefix_refl _)
    · rw [if_neg henabled]
      exact hsame hle _ rfl

theorem sound_of_reaches (h : (callMachine policy lower).Reaches (FreshRun policy lower) w) :
    w.health.Sound policy w.log w.clock ∧ 0 ≤ w.clock := by
  refine Machine.invariant (I := fun w => w.health.Sound policy w.log w.clock ∧ 0 ≤ w.clock) ?_ ?_ h
  · rintro w ⟨hhealth, -, hclock⟩
    refine ⟨?_, hclock.ge⟩
    intro key row hrow
    rw [hhealth] at hrow
    cases hrow
  · rintro w call w' ⟨hsound, hclock⟩ hG hstep
    obtain ⟨hsound', hle, -⟩ := World.step_sound hsound hclock hG hstep
    exact ⟨hsound', hclock.trans hle⟩

/-- **A breaker clears only on recovery or silence**, in every run in which no key is looked at
when a probe was recorded for it after all outcomes in its window had become too old: a key that
is open or half open becomes closed only by the configured number of consecutive probes, all
successful, or when every outcome recorded for it is older than the maximum age. -/
theorem clears_for_cause (policy : Policy) (lower : String → String)
    (h : (callMachine policy lower).Reaches (FreshRun policy lower) w)
    (hG : FreshRun policy lower w call)
    (hstep : (callMachine policy lower).step w call = some w') (key : String)
    (hopen : w.health.stateOf key ≠ .closed) (hclosed : w'.health.stateOf key = .closed) :
    Cleared policy key w.log w'.log call.now := by
  obtain ⟨hsound, hclock⟩ := sound_of_reaches h
  exact (World.step_sound hsound hclock hG hstep).2.2.2 key hopen hclosed

end Runs

/-! ### Two runs -/

/-- `Fresh` and `FreshRun`, evaluated. -/
def fresh (policy : Policy) (h : Health) (log : List Entry) (key : String) (now : ℚ) : Bool :=
  match h.breakers.get? key with
  | none => true
  | some row => decide (row.state = .closed) || match row.window.getLast? with
      | none => true
      | some (t, _) => !decide (policy.maxAge < now - t) ||
          (history key log).all fun e => decide (policy.maxAge < now - e.time)

def freshRun (policy : Policy) (w : World) (call : Call) : Bool :=
  match call with
  | .record r => fresh policy w.health w.log r.coarse r.now &&
      fresh policy (foldLogged policy r.coarse .provider r.toCoarse w.health w.log).1
        (foldLogged policy r.coarse .provider r.toCoarse w.health w.log).2 r.fine r.now
  | .allows k => fresh policy w.health w.log k.coarse k.now &&
      fresh policy (w.health.update k.coarse (admitRow policy k.now)) w.log k.fine k.now

variable {policy : Policy}

theorem fresh_iff {h : Health} {log : List Entry} {key : String} {now : ℚ}
    (hfresh : fresh policy h log key now = true) : Fresh policy h log key now := by
  intro row hrow hne t ok hlast hold e he
  unfold fresh at hfresh
  simp only [hrow, hlast, hne, decide_false, Bool.false_or, hold, decide_true, Bool.not_true,
    List.all_eq_true, decide_eq_true_eq] at hfresh
  exact hfresh e he

theorem freshRun_iff (lower : String → String) {w : World} {call : Call}
    (h : freshRun policy w call = true) : FreshRun policy lower w call := by
  cases call with
  | record r =>
    simp only [freshRun, Bool.and_eq_true] at h
    exact fun _ _ => ⟨fresh_iff h.1, fresh_iff h.2⟩
  | allows k =>
    simp only [freshRun, Bool.and_eq_true] at h
    exact fun _ => ⟨fresh_iff h.1, fresh_iff h.2⟩

/-- An outcome of the router's model at `now`; nothing is waited for. -/
def sampleReport (now : ℚ) (failureClass : String) : Call :=
  .record ⟨"openai", "completion", "router", "m", now, failureClass = "", failureClass, (0, 0)⟩

def sampleCheck (now : ℚ) : Call := .allows ⟨"openai", "completion", "router", "m", now⟩

def sampleKey : String := coarseKey "openai" "completion"

theorem sample_start : (callMachine {} id).start ⟨.empty, [], 0⟩ := ⟨rfl, rfl, rfl⟩

set_option maxRecDepth 10000 in
/-- A rejected credential, and the two probes that close the key. -/
theorem clears_for_cause_of_probes : ∃ w w', (callMachine {} id).Reaches (FreshRun {} id) w ∧
    (callMachine {} id).step w (sampleReport 3 "") = some w' ∧
    w.health.stateOf sampleKey = .halfOpen ∧ w'.health.stateOf sampleKey = .closed ∧
    Cleared {} sampleKey w.log w'.log 3 := by
  have hrun : ((callMachine {} id).runChecked (freshRun {}) ⟨.empty, [], 0⟩
      [sampleReport 0 "unauthenticated", sampleCheck 1, sampleReport 2 ""]).any (fun w =>
        freshRun {} w (sampleReport 3 "") && decide (w.health.stateOf sampleKey = .halfOpen) &&
        ((callMachine {} id).step w (sampleReport 3 "")).any fun w' =>
          decide (w'.health.stateOf sampleKey = .closed)) = true := by
    decide +kernel
  obtain ⟨w, hw, hend⟩ :=
    Machine.reaches_of_runChecked (fun _ _ => freshRun_iff id) sample_start hrun
  simp only [Bool.and_eq_true, decide_eq_true_eq] at hend
  obtain ⟨⟨hG, hhalf⟩, hnext⟩ := hend
  obtain ⟨w', hstep, hclosed⟩ := (Option.any_eq_true _ _).mp hnext
  have hclosed := of_decide_eq_true hclosed
  have hopen : w.health.stateOf sampleKey ≠ .closed := by rw [hhalf]; simp
  exact ⟨w, w', hw, hstep, hhalf, hclosed,
    clears_for_cause {} id hw (freshRun_iff id hG) hstep sampleKey hopen hclosed⟩

set_option maxRecDepth 10000 in
/-- A key whose probe failed ten minutes ago is closed, because its window holds only the outcome
that opened it. -/
theorem failing_key_closed : ¬ ∀ (policy : Policy) (lower : String → String) (w w' : World)
    (call : Call) (key : String), (callMachine policy lower).Reaches Machine.anyStep w →
      (callMachine policy lower).step w call = some w' → w.health.stateOf key ≠ .closed →
      w'.health.stateOf key = .closed → Cleared policy key w.log w'.log call.now := by
  intro hall
  have hrun : ((callMachine {} id).runChecked (fun _ _ => true) ⟨.empty, [], 0⟩
      [sampleReport 0 "unauthenticated", sampleCheck 1, sampleReport 3000 "unauthenticated"]).any
      (fun w => decide (w.health.stateOf sampleKey = .opened) && w.log.all (fun e => !e.ok) &&
        ((history sampleKey w.log).any fun e => !decide ((3600 : ℚ) < 3601 - e.time)) &&
        ((callMachine {} id).step w (sampleCheck 3601)).any fun w' =>
          decide (w'.health.stateOf sampleKey = .closed) &&
            decide (w'.log.length = w.log.length)) = true := by
    decide +kernel
  obtain ⟨w, hw, hend⟩ := Machine.reaches_of_runChecked (fun _ _ _ => trivial) sample_start hrun
  simp only [Bool.and_eq_true, decide_eq_true_eq, List.all_eq_true, List.any_eq_true] at hend
  obtain ⟨⟨⟨hopened, hfailed⟩, e, he, hrecent⟩, hnext⟩ := hend
  obtain ⟨w', hstep, hclosed⟩ := (Option.any_eq_true _ _).mp hnext
  simp only [Bool.and_eq_true, decide_eq_true_eq] at hclosed
  rcases hall {} id w w' _ sampleKey hw hstep (by rw [hopened]; simp) hclosed.1 with
    ⟨log, hpre, hpost, pre, post, hhist, hlen, hpost'⟩ | hsilent
  · have hlog : w.log = log := hpre.eq_of_length_le ((hpost.length_le).trans hclosed.2.le)
    obtain ⟨e', he'⟩ : ∃ e', e' ∈ post := List.exists_mem_of_length_pos (by rw [hlen]; decide)
    have hmem : e' ∈ history sampleKey w.log := by
      rw [hlog, hhist]
      exact List.mem_append_right _ he'
    have hbad := hfailed e' (List.mem_filter.mp hmem).1
    rw [(hpost' e' he').1] at hbad
    cases hbad
  · have hlt := hsilent e he
    have hage : ({} : Policy).maxAge = 3600 := by decide
    rw [hage] at hlt
    simp only [sampleCheck, Call.now] at hlt
    simp [hlt] at hrecent

end AgenticKibana.Breaker
