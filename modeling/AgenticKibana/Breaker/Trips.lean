import AgenticKibana.Breaker.Recovery
import Mathlib.Data.List.Dedup
import Mathlib.Data.List.Perm.Subperm

/-!
# What opens a breaker, and for whom

A closed key opens on an immediate failure, if it is the coarse key of its provider and
channel, or when its window is failing.  The coarse key is not judged by its window, so
that no role answers for another one: unless an outcome names no role and no model, for
then its fine key *is* the coarse one.
-/

namespace AgenticKibana.Breaker

open AgenticKibana.Library List

variable {policy : Policy} {lower : String → String}

def Health.call (policy : Policy) (lower : String → String) (h : Health) : Call → Health
  | .record r => h.record policy lower r
  | .allows k => h.admitted policy lower k

def Health.calls (policy : Policy) (lower : String → String) (calls : List Call) : Health :=
  calls.foldl (Health.call policy lower) .empty

def Call.keys : Call → List String
  | .record r => [r.coarse, r.fine]
  | .allows _ => []

def BelowBound (calls : List Call) : Prop := (calls.flatMap Call.keys).dedup.length < maxBreakerKeys

instance (calls : List Call) : Decidable (BelowBound calls) :=
  inferInstanceAs (Decidable ((calls.flatMap Call.keys).dedup.length < maxBreakerKeys))

/-- No immediate failure on the provider and channel of `k`. -/
def NoImmediate (k : Check) (call : Call) : Prop :=
  match call with
  | .record r => r.immediate = true → r.coarse ≠ k.coarse
  | .allows _ => True

/-- A call about the breaker key of `k`. -/
def Call.about (k : Check) : Call → Bool
  | .record r => r.fine == k.fine
  | .allows k' => k'.fine == k.fine

/-- A call about another key leaves the fine row of `k` alone, and its coarse row is no fine one. -/
def Apart (k : Check) (call : Call) : Prop :=
  call.about k = false → match call with
    | .record r => r.fine ≠ k.coarse ∧ r.coarse ≠ k.fine
    | .allows k' => k'.coarse ≠ k.fine

section Rows

variable {o : Outcome} {row : Row} {ts : List Transition} {now : ℚ}

theorem settle_closed (h : row.state = .closed) :
    (settle policy now (row, ts)).1.state = .closed := by
  unfold settle
  dsimp only
  split
  · exact transition_state _ _ _
  · exact h

theorem admitRow_closed (h : row.state = .closed) :
    (admitRow policy now (row, ts)).1.state = .closed := by
  unfold admitRow
  dsimp only
  rw [if_neg]
  · exact settle_closed h
  · rw [settle_closed h]
    simp

theorem score_opens (h : row.state = .closed)
    (hopen : (score policy o (row, ts)).1.state ≠ .closed) :
    o.immediate = true ∨
      o.evaluateRate = true ∧ failing policy (score policy o (row, ts)).1.window = true := by
  unfold score at hopen ⊢
  dsimp only at hopen ⊢
  rw [if_neg (by simp [h]), if_neg (by simp [h])] at hopen ⊢
  by_cases himmediate : o.immediate = true
  · exact .inl himmediate
  rw [if_neg himmediate] at hopen ⊢
  split at hopen
  · rename_i hfailing
    rw [if_pos hfailing, openRow_window]
    exact .inr hfailing
  · exact absurd h hopen

theorem fold_opens (h : row.state = .closed)
    (hopen : (fold policy o (row, ts)).1.state ≠ .closed) :
    o.immediate = true ∨
      o.evaluateRate = true ∧ failing policy (fold policy o (row, ts)).1.window = true :=
  score_opens (settle_closed h) hopen

end Rows

section Registry

variable {h : Health} {key : String} {scope : Scope} {o : Outcome}

def newRow (policy : Policy) (key : String) (scope : Scope) : Row :=
  { key, scope, waitSeconds := policy.wait }

theorem breakerRow_get_eq (hsize : h.breakers.size < maxBreakerKeys) (key' : String) :
    (h.breakerRow policy key scope).breakers.get? key' =
      if key' = key then some ((h.breakers.get? key).getD (newRow policy key scope))
      else h.breakers.get? key' := by
  unfold Health.breakerRow
  split
  · rename_i hcontains
    obtain ⟨row, hrow⟩ := Dict.contains_iff.mp hcontains
    by_cases heq : key' = key
    · rw [if_pos heq, heq, hrow]
      rfl
    · rw [if_neg heq]
  · rename_i hcontains
    have hnone : h.breakers.get? key = none := by
      cases hrow : h.breakers.get? key with
      | none => rfl
      | some row => exact absurd (Dict.contains_iff.mpr ⟨row, hrow⟩) hcontains
    have hsame : evictIfNeeded h.breakers = h.breakers := by
      unfold evictIfNeeded
      rw [if_pos hsize]
    rw [hsame, Dict.get?_set, hnone]
    rfl

theorem foldKey_get (hsize : h.breakers.size < maxBreakerKeys) (key' : String) :
    (h.foldKey policy key scope o).breakers.get? key' =
      if key' = key then
        some (fold policy o ((h.breakers.get? key).getD (newRow policy key scope), [])).1
      else h.breakers.get? key' := by
  unfold Health.foldKey
  rw [update_get, breakerRow_get_eq hsize, breakerRow_get_eq hsize, if_pos rfl]
  by_cases heq : key' = key
  · rw [if_pos heq, if_pos heq]
    rfl
  · rw [if_neg heq, if_neg heq, if_neg heq]

end Registry

section Opening

variable {h : Health} {key key' : String} {scope : Scope} {o : Outcome}

theorem breakerRow_closed (hclosed : h.stateOf key' = .closed) :
    (h.breakerRow policy key scope).stateOf key' = .closed := by
  rcases @breakerRow_get policy h key scope key' with ⟨row, hrow, hsame | ⟨-, -, hnew⟩⟩ |
    ⟨hnone, -, -⟩
  · rw [stateOf_of_get hrow, ← stateOf_of_get hsame]
    exact hclosed
  · rw [stateOf_of_get hrow]
    exact hnew
  · exact stateOf_of_none hnone

variable {f : Work → Work}

theorem update_stateOf_of_ne (hne : key' ≠ key) :
    (h.update key f).stateOf key' = h.stateOf key' := by
  unfold Health.stateOf
  rw [update_get, if_neg hne]

theorem update_closed (hf : ∀ row : Row, row.state = .closed → (f (row, [])).1.state = .closed)
    (hclosed : h.stateOf key' = .closed) : (h.update key f).stateOf key' = .closed := by
  by_cases heq : key' = key
  · subst heq
    cases hrow : h.breakers.get? key' with
    | none => exact stateOf_of_none (by rw [update_get, if_pos rfl, hrow]; rfl)
    | some row =>
      rw [@stateOf_of_get _ _ (f (row, [])).1 (by rw [update_get, if_pos rfl, hrow]; rfl)]
      rw [stateOf_of_get hrow] at hclosed
      exact hf row hclosed
  · rw [update_stateOf_of_ne heq]
    exact hclosed

theorem foldKey_opens (hclosed : h.stateOf key' = .closed)
    (hopen : (h.foldKey policy key scope o).stateOf key' ≠ .closed) :
    key' = key ∧ (o.immediate = true ∨ o.evaluateRate = true ∧
      ∃ row, (h.foldKey policy key scope o).breakers.get? key' = some row ∧
        failing policy row.window = true) := by
  have hrows := @breakerRow_closed policy h key key' scope hclosed
  unfold Health.foldKey at hopen ⊢
  by_cases heq : key' = key
  · subst heq
    refine ⟨rfl, ?_⟩
    cases hrow : (h.breakerRow policy key' scope).breakers.get? key' with
    | none =>
      refine absurd (stateOf_of_none ?_) hopen
      rw [update_get, if_pos rfl, hrow]
      rfl
    | some row =>
      have hget : ((h.breakerRow policy key' scope).update key'
        (fold policy o)).breakers.get? key' =
          some (fold policy o (row, [])).1 := by
        rw [update_get, if_pos rfl, hrow]
        rfl
      rw [stateOf_of_get hget] at hopen
      rw [stateOf_of_get hrow] at hrows
      rcases fold_opens hrows hopen with himmediate | ⟨hrate, hfailing⟩
      · exact .inl himmediate
      · exact .inr ⟨hrate, _, hget, hfailing⟩
  · rw [update_stateOf_of_ne heq] at hopen
    exact absurd hrows hopen

theorem admitted_closed {k : Check} (hclosed : h.stateOf key = .closed) :
    (h.admitted policy lower k).stateOf key = .closed := by
  unfold Health.admitted
  split
  · exact hclosed
  · exact update_closed (fun _ => admitRow_closed)
      (update_closed (fun _ => admitRow_closed) hclosed)

/-- Why a call opens a key: it reports an immediate failure of its provider and channel, or what is
in the window of the key reaches the quorum and the rate. -/
def Cause (policy : Policy) (after : Health) (key : String) (call : Call) : Prop :=
  ∃ r, call = .record r ∧ (r.immediate = true ∧ r.coarse = key ∨
    ∃ row, after.breakers.get? key = some row ∧ policy.quorum ≤ row.window.length ∧
      policy.threshold ≤ failureRate row.window)

/-- **A closed key opens only for cause.** -/
theorem call_opens {call : Call} (hclosed : h.stateOf key = .closed)
    (hopen : (h.call policy lower call).stateOf key ≠ .closed) :
    Cause policy (h.call policy lower call) key call := by
  cases call with
  | allows k => exact absurd (admitted_closed hclosed) hopen
  | record r =>
    refine ⟨r, rfl, ?_⟩
    simp only [Health.call, Health.record, Health.recordOutcome] at hopen ⊢
    split at hopen
    · exact absurd hclosed hopen
    rename_i hskip
    rw [if_neg hskip]
    split at hopen
    · rename_i henabled
      rw [if_pos henabled]
      by_cases hmid : (h.foldKey policy r.coarse .provider r.toCoarse).stateOf key = .closed
      · rcases (foldKey_opens hmid hopen).2 with himmediate | ⟨-, row, hrow, hfailing⟩
        · cases himmediate
        · refine .inr ⟨row, hrow, ?_⟩
          simpa only [failing, Bool.and_eq_true, decide_eq_true_eq] using hfailing
      · obtain ⟨heq, himmediate | ⟨hrate, -⟩⟩ := foldKey_opens hclosed hmid
        · exact .inl ⟨himmediate, heq.symm⟩
        · cases hrate
    · exact absurd hclosed hopen

end Opening

/-! ### What another key's outcomes change -/

section Independence

variable {k : Check} {h h1 h2 : Health} {calls : List Call} {call : Call}

def Health.Known (keys : List String) (h : Health) : Prop := ∀ key ∈ h.breakers.keys, key ∈ keys

variable {keys : List String}

theorem Health.Known.size (hknown : h.Known keys) (hbound : keys.dedup.length < maxBreakerKeys) :
    h.breakers.size < maxBreakerKeys := by
  have hsub : h.breakers.keys ⊆ keys.dedup := fun key hkey => mem_dedup.mpr (hknown key hkey)
  have hsize : h.breakers.size = h.breakers.keys.length := (length_map _).symm
  rw [hsize]
  exact (h.breakers.nodup.subperm hsub).length_le.trans_lt hbound

variable {key : String}

theorem Health.Known.update {f : Work → Work} (hknown : h.Known keys) :
    (h.update key f).Known keys := by
  intro key' hkey
  refine hknown key' ?_
  by_contra hnone
  have hget := Dict.get?_eq_none_iff.mpr hnone
  refine absurd hkey (Dict.get?_eq_none_iff.mp ?_)
  rw [update_get]
  split
  · rename_i heq
    rw [← heq, hget]
    rfl
  · exact hget

variable {scope : Scope} {o : Outcome}

theorem Health.Known.foldKey (hknown : h.Known keys) (hkey : key ∈ keys) :
    (h.foldKey policy key scope o).Known keys := by
  refine Health.Known.update fun key' hkey' => ?_
  unfold Health.breakerRow at hkey'
  split at hkey'
  · exact hknown key' hkey'
  · rcases Dict.mem_keys_set.mp hkey' with rfl | hold
    · exact hkey
    · refine hknown key' ?_
      by_contra hnone
      have hget := Dict.get?_eq_none_iff.mpr hnone
      refine absurd hold (Dict.get?_eq_none_iff.mp ?_)
      rcases evictIfNeeded_get h.breakers key' with hsame | ⟨hgone, -⟩
      · exact hsame.trans hget
      · exact hgone

theorem Health.Known.step (hknown : h.Known keys) (hkeys : ∀ key ∈ call.keys, key ∈ keys) :
    (h.call policy lower call).Known keys := by
  cases call with
  | allows k =>
    simp only [Health.call, Health.admitted]
    split
    · exact hknown
    · exact hknown.update.update
  | record r =>
    simp only [Health.call, Health.record, Health.recordOutcome]
    split
    · exact hknown
    split
    · exact (hknown.foldKey (hkeys r.coarse (by simp [Call.keys]))).foldKey
        (hkeys r.fine (by simp [Call.keys]))
    · exact hknown

/-- A check of `k` finds the same in two registries: its fine row is the same, and its coarse key,
if that is another one, is closed in both. -/
structure Same (k : Check) (h1 h2 : Health) : Prop where
  fine : h1.breakers.get? k.fine = h2.breakers.get? k.fine
  left : k.coarse ≠ k.fine → h1.stateOf k.coarse = .closed
  right : k.coarse ≠ k.fine → h2.stateOf k.coarse = .closed

theorem Same.symm (h : Same k h1 h2) : Same k h2 h1 := ⟨h.fine.symm, h.right, h.left⟩

theorem Same.trans {h3 : Health} (h : Same k h1 h2) (h' : Same k h2 h3) : Same k h1 h3 :=
  ⟨h.fine.trans h'.fine, h.left, h'.right⟩

theorem update_congr (key' : String) (f : Work → Work)
    (heq : h1.breakers.get? key = h2.breakers.get? key) :
    (h1.update key' f).breakers.get? key = (h2.update key' f).breakers.get? key := by
  rw [update_get, update_get]
  by_cases hkey : key = key'
  · rw [if_pos hkey, if_pos hkey, ← hkey, heq]
  · rw [if_neg hkey, if_neg hkey]
    exact heq

theorem foldKey_congr (key' : String) (hsize1 : h1.breakers.size < maxBreakerKeys)
    (hsize2 : h2.breakers.size < maxBreakerKeys)
    (heq : h1.breakers.get? key = h2.breakers.get? key) :
    (h1.foldKey policy key' scope o).breakers.get? key =
      (h2.foldKey policy key' scope o).breakers.get? key := by
  rw [foldKey_get hsize1, foldKey_get hsize2]
  by_cases hkey : key = key'
  · rw [if_pos hkey, if_pos hkey, ← hkey, heq]
  · rw [if_neg hkey, if_neg hkey]
    exact heq

theorem refusal_of_closed (hclosed : h.stateOf key = .closed) : h.refusal key = none := by
  unfold Health.refusal
  cases hrow : h.breakers.get? key with
  | none => rfl
  | some row =>
    rw [stateOf_of_get hrow] at hclosed
    simp [Breaker.refusal, hclosed]

theorem Same.allows (hsame : Same k h1 h2) :
    h1.allows policy lower k = h2.allows policy lower k := by
  have hrefusal : ∀ {g1 g2 : Health}, g1.breakers.get? k.fine = g2.breakers.get? k.fine →
      g1.refusal k.fine = g2.refusal k.fine := by
    intro g1 g2 heq
    unfold Health.refusal
    rw [heq]
  have hfine := hrefusal (update_congr k.fine (admitRow policy k.now)
    (update_congr k.coarse (admitRow policy k.now) hsame.fine))
  have hcoarse : (h1.update k.coarse (admitRow policy k.now)).refusal k.coarse =
      (h2.update k.coarse (admitRow policy k.now)).refusal k.coarse := by
    by_cases heq : k.coarse = k.fine
    · rw [heq]
      exact hrefusal (update_congr k.fine _ hsame.fine)
    · rw [refusal_of_closed (update_closed (fun _ => admitRow_closed) (hsame.left heq)),
        refusal_of_closed (update_closed (fun _ => admitRow_closed) (hsame.right heq))]
  unfold Health.allows
  split
  · rfl
  · simp only [hcoarse, hfine]

theorem call_coarse_closed (himmediate : NoImmediate k call) (hapart : Apart k call)
    (hne : k.coarse ≠ k.fine)
    (hclosed : h.stateOf k.coarse = .closed) :
    (h.call policy lower call).stateOf k.coarse = .closed := by
  cases call with
  | allows k' => exact admitted_closed hclosed
  | record r =>
    -- the coarse key of `k` is not the fine key of the outcome
    have hfine : k.coarse ≠ r.fine := by
      by_cases habout : Call.about k (.record r) = true
      · rw [beq_iff_eq.mp habout]
        exact hne
      · exact (hapart (Bool.eq_false_iff.mpr habout)).1.symm
    simp only [Health.call, Health.record, Health.recordOutcome]
    split
    · exact hclosed
    split
    · by_contra hopen
      have hmid : (h.foldKey policy r.coarse .provider r.toCoarse).stateOf k.coarse ≠ .closed :=
        fun hmid => hfine (foldKey_opens hmid hopen).1
      obtain ⟨heq, hnow | ⟨hrate, -⟩⟩ := foldKey_opens hclosed hmid
      · exact himmediate hnow heq.symm
      · cases hrate
    · exact hclosed

theorem Same.other (hsame : Same k h1 h2) (hknown : h1.Known keys)
    (hkeys : ∀ key ∈ call.keys, key ∈ keys) (hbound : keys.dedup.length < maxBreakerKeys)
    (himmediate : NoImmediate k call) (hapart : Apart k call) (habout : call.about k = false) :
    Same k (h1.call policy lower call) h2 := by
  refine ⟨?_, fun hne => call_coarse_closed himmediate hapart hne (hsame.left hne), hsame.right⟩
  have hcall := hapart habout
  cases call with
  | allows k' =>
    have hfine : k.fine ≠ k'.fine := fun heq => by simp [Call.about, heq] at habout
    simp only [Health.call, Health.admitted]
    split
    · exact hsame.fine
    · rw [update_get, if_neg hfine, update_get, if_neg (fun heq => hcall heq.symm)]
      exact hsame.fine
  | record r =>
    have hfine : k.fine ≠ r.fine := fun heq => by simp [Call.about, heq] at habout
    have hknown' : (h1.foldKey policy r.coarse .provider r.toCoarse).Known keys :=
      hknown.foldKey (hkeys r.coarse (by simp [Call.keys]))
    simp only [Health.call, Health.record, Health.recordOutcome]
    split
    · exact hsame.fine
    split
    · rw [foldKey_get (hknown'.size hbound), if_neg hfine, foldKey_get (hknown.size hbound),
        if_neg (fun heq => hcall.2 heq.symm)]
      exact hsame.fine
    · exact hsame.fine

theorem Same.own (hsame : Same k h1 h2) (hknown1 : h1.Known keys) (hknown2 : h2.Known keys)
    (hkeys : ∀ key ∈ call.keys, key ∈ keys) (hbound : keys.dedup.length < maxBreakerKeys)
    (himmediate : NoImmediate k call) (hapart : Apart k call) :
    Same k (h1.call policy lower call) (h2.call policy lower call) := by
  refine ⟨?_, fun hne => call_coarse_closed himmediate hapart hne (hsame.left hne),
    fun hne => call_coarse_closed himmediate hapart hne (hsame.right hne)⟩
  cases call with
  | allows k' =>
    simp only [Health.call, Health.admitted]
    split
    · exact hsame.fine
    · exact update_congr _ _ (update_congr _ _ hsame.fine)
  | record r =>
    have hcoarse : r.coarse ∈ keys := hkeys r.coarse (by simp [Call.keys])
    simp only [Health.call, Health.record, Health.recordOutcome]
    split
    · exact hsame.fine
    split
    · exact foldKey_congr _ ((hknown1.foldKey hcoarse).size hbound)
        ((hknown2.foldKey hcoarse).size hbound)
        (foldKey_congr _ (hknown1.size hbound) (hknown2.size hbound) hsame.fine)
    · exact hsame.fine

/-! ### Runs -/

theorem known_empty (keys : List String) : Health.empty.Known keys := by
  intro key hkey
  cases hkey

theorem calls_snoc (calls : List Call) (call : Call) :
    Health.calls policy lower (calls ++ [call]) =
      (Health.calls policy lower calls).call policy lower call :=
  foldl_concat _ _ _ _

/-- The registry after a run is, for a check of `k`, that after the calls about its key alone; and
both hold the rows of keys that were recorded. -/
theorem same_calls (hbound : keys.dedup.length < maxBreakerKeys)
    (hkeys : ∀ call ∈ calls, ∀ key ∈ call.keys, key ∈ keys)
    (himmediate : ∀ call ∈ calls, NoImmediate k call) (hapart : ∀ call ∈ calls, Apart k call) :
    Same k (Health.calls policy lower calls)
        (Health.calls policy lower (calls.filter (Call.about k))) ∧
      (Health.calls policy lower calls).Known keys ∧
      (Health.calls policy lower (calls.filter (Call.about k))).Known keys := by
  induction calls using List.reverseRecOn with
  | nil => exact ⟨⟨rfl, fun _ => rfl, fun _ => rfl⟩, known_empty keys, known_empty keys⟩
  | append_singleton calls call ih =>
    obtain ⟨hsame, hknown, hknownOwn⟩ := ih (fun c hc => hkeys c (mem_append_left _ hc))
      (fun c hc => himmediate c (mem_append_left _ hc))
      (fun c hc => hapart c (mem_append_left _ hc))
    have hlast : call ∈ calls ++ [call] := mem_append_right _ (mem_singleton_self call)
    rw [filter_append, calls_snoc]
    cases habout : call.about k with
    | true =>
      rw [filter_cons_of_pos habout, filter_nil, calls_snoc]
      exact ⟨hsame.own hknown hknownOwn (hkeys call hlast) hbound (himmediate call hlast)
        (hapart call hlast), hknown.step (hkeys call hlast), hknownOwn.step (hkeys call hlast)⟩
    | false =>
      rw [filter_cons_of_neg (by simp [habout]), filter_nil, append_nil]
      exact ⟨hsame.other hknown (hkeys call hlast) hbound (himmediate call hlast)
        (hapart call hlast) habout, hknown.step (hkeys call hlast), hknownOwn⟩

end Independence

def Independent (policy : Policy) (lower : String → String) (k : Check) (cond : Call → Prop) :
    Prop :=
  ∀ calls1 calls2, BelowBound calls1 → BelowBound calls2 → (∀ call ∈ calls1, cond call) →
    (∀ call ∈ calls2, cond call) →
    calls1.filter (Call.about k) = calls2.filter (Call.about k) →
    (Health.calls policy lower calls1).allows policy lower k =
      (Health.calls policy lower calls2).allows policy lower k

/-- **A breaker trips for cause, and for its own key.**  In every run a closed key opens only on an
immediate failure of its provider and channel, or when what is in its window reaches the quorum and
the rate.  Two runs without such failures, that agree on the calls about a key, get the same answers
for it, if no other key's outcome has that key as its coarse one, or the coarse one as its own. -/
theorem trips_for_cause (policy : Policy) (lower : String → String) :
    (∀ calls call key, (Health.calls policy lower calls).stateOf key = .closed →
      (Health.calls policy lower (calls ++ [call])).stateOf key ≠ .closed →
        Cause policy (Health.calls policy lower (calls ++ [call])) key call) ∧
    ∀ k, Independent policy lower k fun call => NoImmediate k call ∧ Apart k call := by
  refine ⟨?_, ?_⟩
  · intro calls call key hclosed hopen
    rw [calls_snoc] at hopen ⊢
    exact call_opens hclosed hopen
  · intro k calls1 calls2 hbound1 hbound2 hcond1 hcond2 hown
    have hsame : ∀ calls, BelowBound calls → (∀ call ∈ calls, NoImmediate k call ∧ Apart k call) →
        Same k (Health.calls policy lower calls)
          (Health.calls policy lower (calls.filter (Call.about k))) := by
      intro calls hbound hcond
      exact (same_calls hbound (fun c hc key hkey => List.mem_flatMap.mpr ⟨c, hc, hkey⟩)
        (fun c hc => (hcond c hc).1) (fun c hc => (hcond c hc).2)).1
    have hsame2 := hsame calls2 hbound2 hcond2
    rw [← hown] at hsame2
    exact ((hsame calls1 hbound1 hcond1).trans hsame2.symm).allows

def sampleFailure (role model failureClass : String) (now : ℚ) : Call :=
  .record ⟨"openai", "completion", role, model, now, false, failureClass, (1, 1)⟩

def routerCheck : Check := ⟨"openai", "completion", "router", "m", 6⟩

theorem noImmediate_of_unavailable (k : Check) (role model : String) (now : ℚ) :
    NoImmediate k (sampleFailure role model "unavailable" now) := by
  intro himmediate
  cases himmediate

set_option maxRecDepth 10000 in
/-- A rejected credential opens the provider's key; and what the investigator is told changes no
answer to the router. -/
theorem trips_for_cause_of_two :
    Cause {} (Health.calls {} id ([] ++ [sampleFailure "router" "m" "quota" 1])) routerCheck.coarse
      (sampleFailure "router" "m" "quota" 1) ∧
    (Health.calls {} id [sampleFailure "investigator" "m" "unavailable" 1,
        sampleFailure "router" "m" "unavailable" 2]).allows {} id routerCheck =
      (Health.calls {} id [sampleFailure "router" "m" "unavailable" 2]).allows
        {} id routerCheck := by
  have hcond : ∀ call ∈ [sampleFailure "investigator" "m" "unavailable" 1,
      sampleFailure "router" "m" "unavailable" 2], NoImmediate routerCheck call ∧
        Apart routerCheck call := by
    intro call hcall
    simp only [List.mem_cons, List.not_mem_nil, or_false] at hcall
    rcases hcall with rfl | rfl
    · exact ⟨noImmediate_of_unavailable _ _ _ _, fun _ => ⟨by decide, by decide⟩⟩
    · exact ⟨noImmediate_of_unavailable _ _ _ _, fun _ => ⟨by decide, by decide⟩⟩
  refine ⟨(trips_for_cause {} id).1 [] _ routerCheck.coarse (by decide) (by decide), ?_⟩
  refine (trips_for_cause {} id).2 routerCheck _ _ (by decide) (by decide) hcond ?_ ?_
  · exact fun call hcall => hcond call (List.mem_cons_of_mem _ hcall)
  · rw [List.filter_cons_of_neg (by decide)]

def pooledFailures : List Call :=
  [1, 2, 3, 4, 5].map fun now => sampleFailure "" "" "unavailable" now

set_option maxRecDepth 10000 in
/-- They count twice against the coarse key, and the router is refused. -/
theorem pooled_failures_refuse : ¬ ∀ (policy : Policy) (lower : String → String) (k : Check),
    Independent policy lower k (NoImmediate k) := by
  intro hall
  have hrefused : ((Health.calls { enforce := true } id pooledFailures).allows
    { enforce := true } id
      routerCheck).1 = false := by
    decide +kernel
  have hallowed : ((Health.calls { enforce := true } id []).allows { enforce := true } id
      routerCheck).1 = true := by
    decide
  have hsame := hall { enforce := true } id routerCheck pooledFailures [] (by decide)
    (by decide) ?_ (by simp) (List.filter_eq_nil_iff.mpr (by decide))
  · rw [hsame, hallowed] at hrefused
    cases hrefused
  · intro call hcall
    obtain ⟨now, -, rfl⟩ := List.mem_map.mp hcall
    exact noImmediate_of_unavailable _ _ _ _

end AgenticKibana.Breaker
