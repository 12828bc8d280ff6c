import Mathlib.Tactic.Common
import AgenticKibana.Library.Monitor
import AgenticKibana.Library.TextLines

/-!
# The mutation admission gate

`MutationAdmissionGate` counts the unsafe requests that are being served.  The owner of a factory
reset closes it, waits until the requests that were admitted have ended, and opens it again; a
degraded owner may be replaced.
-/

namespace AgenticKibana.Gates

open AgenticKibana.Library List
open AgenticKibana.Library.TextLines (strip)

variable {τ : Type} [DecidableEq τ]

inductive Call where
  | admitting
  | leave
  | close (owner : List Char)
  | waitDrained (owner : List Char)
  /-- Inside of the loop of `wait_drained`. -/
  | draining (owner : List Char)
  | markDegraded (owner : List Char)
  | openGate (owner : List Char)
deriving DecidableEq

inductive Reply where
  | done
  | cancelled
  /-- `MutationAdmissionClosed`: factory reset is in progress. -/
  | admissionClosed
  /-- mutation-gate owner is required -/
  | ownerRequired
  /-- another factory reset owns mutation admission -/
  | ownedByAnother
  /-- mutation-gate ownership changed -/
  | ownershipChanged
  /-- cannot open mutation admission while requests are active -/
  | requestsActive
deriving DecidableEq

/-- The fields of the gate; the requests that are inside of `admit`; the owners whose
`wait_drained` found the gate drained since it was last opened; and the answers so far. -/
structure MutationGate (τ : Type) where
  owner : List Char
  active : Int
  degraded : Bool
  inside : List τ
  drained : List (List Char)
  replies : List (τ × Reply)

def MutationGate.reply (g : MutationGate τ) (t : τ) (r : Reply) (notify : Bool) :
    Outcome Call (MutationGate τ) :=
  ⟨{ g with replies := (t, r) :: g.replies }, notify, none⟩

/-- The loop of `wait_drained`, once the owner was checked. -/
def drainLoop (t : τ) (owner : List Char) (g : MutationGate τ) :
    Outcome Call (MutationGate τ) :=
  if g.active ≠ 0 then ⟨g, false, some (.draining owner)⟩
  else ({ g with drained := owner :: g.drained } : MutationGate τ).reply t .done false

/-- The sections of the gate.  `wait_for` runs `wait_drained` as a task of its own, so the call
may return some turns after its section has ended; a timeout is a cancellation of that task. -/
def gateBody (t : τ) : Call → Bool → MutationGate τ → Outcome Call (MutationGate τ)
  | .admitting, _, g =>
    if g.owner ≠ [] then g.reply t .admissionClosed false
    else ({ g with active := g.active + 1, inside := t :: g.inside } : MutationGate τ).reply t
      .done false
  | .leave, _, g =>
    ({ g with active := max 0 (g.active - 1) } : MutationGate τ).reply t .done true
  | .close owner, _, g =>
    let owner := strip owner
    -- this check stands before the lock is taken
    if owner = [] then g.reply t .ownerRequired false
    else if g.owner ≠ [] ∧ g.owner ≠ owner then
      if g.degraded = false then g.reply t .ownedByAnother false
      else ({ g with owner, degraded := false } : MutationGate τ).reply t .done true
    else if g.owner = [] then
      ({ g with owner, degraded := false } : MutationGate τ).reply t .done true
    else g.reply t .done true
  | .waitDrained owner, _, g =>
    if g.owner ≠ owner then g.reply t .ownershipChanged false else drainLoop t owner g
  | .draining owner, cancelled, g =>
    if cancelled then g.reply t .cancelled false
    else if g.owner ≠ owner then g.reply t .ownershipChanged false
    else drainLoop t owner g
  | .markDegraded owner, _, g =>
    if g.owner ≠ owner then g.reply t .ownershipChanged false
    else ({ g with degraded := true } : MutationGate τ).reply t .done true
  | .openGate owner, _, g =>
    if g.owner ≠ owner then g.reply t .ownershipChanged false
    else if g.active ≠ 0 then g.reply t .requestsActive false
    else
      ({ g with owner := [], degraded := false, drained := [] } : MutationGate τ).reply t .done
        true

/-- Any task may make any call at any time; a request that was admitted leaves once, when its
block has ended in whatever way. -/
def gateArrive (t : τ) : Call → MutationGate τ → Option (MutationGate τ)
  | .draining _, _ => none
  | .leave, g => if t ∈ g.inside then some { g with inside := g.inside.erase t } else none
  | _, g => some g

def mutationGate (τ : Type) [DecidableEq τ] : Monitor τ Call (MutationGate τ) where
  start g := g = ⟨[], 0, false, [], [], []⟩
  arrive := gateArrive
  body := gateBody

/-! ### The invariant -/

/-- A task can only be suspended in the loop of `wait_drained`. -/
def InDrain (point : Call) : Prop := ∃ owner, point = .draining owner

structure Sound (g : MutationGate τ) (ws : List (Waiter τ Call)) : Prop where
  /-- The counter counts the requests inside. -/
  active : g.active = g.inside.length
  /-- Since a reset owner found the gate drained, it is closed and empty. -/
  drained : ∀ owner ∈ g.drained, owner ≠ [] → g.owner ≠ [] ∧ g.inside = []
  /-- Who waits, waits for the requests. -/
  points : ∀ w ∈ ws, InDrain w.point
  /-- When the last request has left, all that wait for it have been woken. -/
  woken : g.active = 0 → ∀ w ∈ ws, w.notified = true

variable {t : τ} {ws : List (Waiter τ Call)} {g : MutationGate τ}

omit [DecidableEq τ] in
theorem settle_silent {o : Outcome Call (MutationGate τ)}
    (hnotify : o.notify = false) (hnext : o.next = none) : Monitor.settle o t ws = ws := by
  simp [Monitor.settle, hnotify, hnext]

omit [DecidableEq τ] in
theorem settle_notify {o : Outcome Call (MutationGate τ)}
    (hnotify : o.notify = true) (hnext : o.next = none) :
    Monitor.settle o t ws = ws.map fun w => { w with notified := true } := by
  simp [Monitor.settle, hnotify, hnext]

omit [DecidableEq τ] in
theorem sound_silent (hg : Sound g ws) (t : τ) (r : Reply) :
    Sound (g.reply t r false).data (Monitor.settle (g.reply t r false) t ws) := by
  rw [settle_silent (o := g.reply t r false) rfl rfl]
  exact ⟨hg.active, hg.drained, hg.points, hg.woken⟩

omit [DecidableEq τ] in
theorem sound_notify (t : τ) (r : Reply) (hactive : g.active = g.inside.length)
    (hdrained : ∀ owner ∈ g.drained, owner ≠ [] → g.owner ≠ [] ∧ g.inside = [])
    (hpoints : ∀ w ∈ ws, InDrain w.point) :
    Sound (g.reply t r true).data (Monitor.settle (g.reply t r true) t ws) := by
  rw [settle_notify (o := g.reply t r true) rfl rfl]
  constructor
  · exact hactive
  · exact hdrained
  · intro w hw
    obtain ⟨w', hw', rfl⟩ := List.mem_map.mp hw
    exact hpoints w' hw'
  · intro _ w hw
    obtain ⟨w', -, rfl⟩ := List.mem_map.mp hw
    rfl

omit [DecidableEq τ] in
theorem sound_drainLoop (hg : Sound g ws) (t : τ) {owner : List Char} (howner : g.owner = owner) :
    Sound (drainLoop t owner g).data (Monitor.settle (drainLoop t owner g) t ws) := by
  unfold drainLoop
  by_cases hactive : g.active ≠ 0
  · rw [if_pos hactive]
    constructor
    · exact hg.active
    · exact hg.drained
    · refine Monitor.forall_settle InDrain hg.points fun point hpoint => ?_
      exact ⟨owner, (Option.some.inj hpoint).symm⟩
    · exact fun hzero => absurd hzero hactive
  · rw [if_neg hactive, settle_silent rfl rfl]
    have hlen := hg.active
    rw [not_not.mp hactive] at hlen
    have hempty : g.inside = [] := eq_nil_of_length_eq_zero (by omega)
    refine ⟨hg.active, ?_, hg.points, hg.woken⟩
    rintro o ho hne
    rcases mem_cons.mp ho with rfl | hold
    · exact ⟨howner ▸ hne, hempty⟩
    · exact hg.drained o hold hne

theorem sound_body {g' : MutationGate τ} (hg : Sound g ws) (t : τ)
    {call : Call} (harrive : gateArrive t call g = some g') :
    Sound (gateBody t call false g').data (Monitor.settle (gateBody t call false g') t ws) := by
  cases call with
  | admitting =>
    obtain rfl : g = g' := Option.some.inj harrive
    simp only [gateBody]
    by_cases howner : g.owner ≠ []
    · rw [if_pos howner]
      exact sound_silent hg t _
    · rw [if_neg howner, settle_silent rfl rfl]
      have hactive := hg.active
      constructor
      · simp [MutationGate.reply, hactive]
      · exact fun o ho hne => absurd (hg.drained o ho hne).1 howner
      · exact hg.points
      · intro hzero
        exfalso
        simp only [MutationGate.reply] at hzero
        omega
  | leave =>
    by_cases hin : t ∈ g.inside
    · obtain rfl : { g with inside := g.inside.erase t } = g' := by
        simpa [gateArrive, hin] using harrive
      have hlen := length_erase_of_mem hin
      have hpos := length_pos_of_mem hin
      have hactive := hg.active
      refine sound_notify t .done ?_ ?_ hg.points
      · dsimp only
        omega
      · intro o ho hne
        obtain ⟨howner, hnil⟩ := hg.drained o ho hne
        rw [hnil] at hin
        cases hin
    · simp [gateArrive, hin] at harrive
  | close owner =>
    obtain rfl : g = g' := Option.some.inj harrive
    simp only [gateBody]
    by_cases hblank : strip owner = []
    · rw [if_pos hblank]
      exact sound_silent hg t _
    · rw [if_neg hblank]
      have htaken : ∀ d, Sound
          (({ g with owner := strip owner, degraded := d } : MutationGate τ).reply t .done
            true).data
          (Monitor.settle (({ g with owner := strip owner, degraded := d } :
            MutationGate τ).reply t .done true) t ws) := fun d =>
        sound_notify t .done hg.active (fun o ho hne => ⟨hblank, (hg.drained o ho hne).2⟩)
          hg.points
      by_cases hother : g.owner ≠ [] ∧ g.owner ≠ strip owner
      · rw [if_pos hother]
        by_cases hdegraded : g.degraded = false
        · rw [if_pos hdegraded]
          exact sound_silent hg t _
        · rw [if_neg hdegraded]
          exact htaken false
      · rw [if_neg hother]
        by_cases hfree : g.owner = []
        · rw [if_pos hfree]
          exact htaken false
        · rw [if_neg hfree]
          exact sound_notify t .done hg.active hg.drained hg.points
  | waitDrained owner =>
    obtain rfl : g = g' := Option.some.inj harrive
    simp only [gateBody]
    by_cases howner : g.owner ≠ owner
    · rw [if_pos howner]
      exact sound_silent hg t _
    · rw [if_neg howner]
      exact sound_drainLoop hg t (not_not.mp howner)
  | draining owner => cases harrive
  | markDegraded owner =>
    obtain rfl : g = g' := Option.some.inj harrive
    simp only [gateBody]
    by_cases howner : g.owner ≠ owner
    · rw [if_pos howner]
      exact sound_silent hg t _
    · rw [if_neg howner]
      exact sound_notify t .done hg.active hg.drained hg.points
  | openGate owner =>
    obtain rfl : g = g' := Option.some.inj harrive
    simp only [gateBody]
    by_cases howner : g.owner ≠ owner
    · rw [if_pos howner]
      exact sound_silent hg t _
    · rw [if_neg howner]
      by_cases hactive : g.active ≠ 0
      · rw [if_pos hactive]
        exact sound_silent hg t _
      · rw [if_neg hactive]
        exact sound_notify t .done hg.active (fun o ho => by cases ho) hg.points

/-- **Every state that the gate reaches is sound.** -/
theorem sound_of_reaches {s : MonitorState τ Call (MutationGate τ)}
    (h : (mutationGate τ).machine.Reaches Machine.anyStep s) : Sound s.data s.waiting := by
  refine Monitor.invariant (mutationGate τ) (I := Sound) ?_ ?_ ?_ h
  · rintro g rfl
    constructor <;> simp
  · intro g g' ws t call hg harrive
    exact sound_body hg t harrive
  · intro g a w b cancelled hg
    obtain ⟨owner, hpoint⟩ := hg.points w (by simp)
    have hrest : Sound g (a ++ b) := by
      have hmem : ∀ v ∈ a ++ b, v ∈ a ++ w :: b := by
        intro v hv
        rcases mem_append.mp hv with hv | hv
        · exact mem_append_left _ hv
        · exact mem_append_right _ (mem_cons_of_mem w hv)
      exact ⟨hg.active, hg.drained, fun v hv => hg.points v (hmem v hv),
        fun hzero v hv => hg.woken hzero v (hmem v hv)⟩
    rw [hpoint, show (mutationGate τ).body = gateBody from rfl]
    simp only [gateBody]
    cases cancelled with
    | true => exact sound_silent hrest w.task _
    | false =>
      by_cases howner : g.owner ≠ owner
      · simp only [Bool.false_eq_true, if_false, if_pos howner]
        exact sound_silent hrest w.task _
      · simp only [Bool.false_eq_true, if_false, if_neg howner]
        exact sound_drainLoop hrest w.task (not_not.mp howner)

omit [DecidableEq τ] in
/-- How a section changes the owner: `close` where there is none or a degraded one, and `open`
by the owner with no request inside. -/
theorem owner_body (t : τ) (call : Call) (cancelled : Bool) (g : MutationGate τ) :
    (gateBody t call cancelled g).data.owner = g.owner ∨
      ((gateBody t call cancelled g).data.owner ≠ [] ∧ (g.owner = [] ∨ g.degraded = true)) ∨
      ((gateBody t call cancelled g).data.owner = [] ∧ call = .openGate g.owner ∧
        g.active = 0) := by
  cases call with
  | close owner =>
    simp only [gateBody]
    by_cases hblank : strip owner = []
    · simp [hblank, MutationGate.reply]
    · by_cases hother : g.owner ≠ [] ∧ g.owner ≠ strip owner
      · cases hdegraded : g.degraded <;> simp [hblank, hother, MutationGate.reply]
      · by_cases hfree : g.owner = []
        · simp [hblank, hfree, MutationGate.reply]
        · left
          rw [if_neg hblank, if_neg hother, if_neg hfree]
          rfl
  | openGate owner =>
    simp only [gateBody]
    by_cases howner : g.owner ≠ owner
    · simp [howner, MutationGate.reply]
    · by_cases hactive : g.active = 0
      · right
        right
        simp [not_not.mp howner, hactive, MutationGate.reply]
      · simp [howner, hactive, MutationGate.reply]
  | admitting =>
    left
    simp only [gateBody]
    split <;> rfl
  | leave => exact Or.inl rfl
  | waitDrained owner =>
    left
    simp only [gateBody, drainLoop]
    split
    · rfl
    · split <;> rfl
  | draining owner =>
    left
    simp only [gateBody, drainLoop]
    split
    · rfl
    · split
      · rfl
      · split <;> rfl
  | markDegraded owner =>
    left
    simp only [gateBody]
    split <;> rfl

theorem owner_of_arrive {call : Call} {g' : MutationGate τ} (h : gateArrive t call g = some g') :
    g'.owner = g.owner ∧ g'.degraded = g.degraded ∧ g'.active = g.active := by
  cases call with
  | leave =>
    by_cases hin : t ∈ g.inside
    · obtain rfl : { g with inside := g.inside.erase t } = g' := by
        simpa [gateArrive, hin] using h
      exact ⟨rfl, rfl, rfl⟩
    · simp [gateArrive, hin] at h
  | draining owner => cases h
  | _ =>
    obtain rfl : g = g' := Option.some.inj h
    exact ⟨rfl, rfl, rfl⟩

def Succeeds (s : MonitorState τ Call (MutationGate τ)) (t : τ) (call : Call) : Prop :=
  ∃ s', (mutationGate τ).step s (.arrive t call) = some s' ∧
    s'.data.replies = (t, .done) :: s.data.replies

/-- **The gate drains before it excludes**: in every state that any requests and owners reach,
whatever is cancelled, the counter is the number of requests inside; a reset owner whose
`wait_drained` came through leaves no request inside until an `open`; the owner changes only from
none, from a degraded owner, or by its own `open` of an empty gate; and with no request inside,
`wait_drained` and `open` of the current owner succeed, and who waits already has been woken. -/
theorem mutation_gate_drains {s : MonitorState τ Call (MutationGate τ)}
    (h : (mutationGate τ).machine.Reaches Machine.anyStep s) :
    s.data.active = s.data.inside.length ∧
      (∀ owner ∈ s.data.drained, owner ≠ [] → s.data.inside = []) ∧
      (∀ e s', (mutationGate τ).step s e = some s' → s'.data.owner ≠ s.data.owner →
        (s'.data.owner ≠ [] ∧ (s.data.owner = [] ∨ s.data.degraded = true)) ∨
        (s'.data.owner = [] ∧ s.data.active = 0 ∧
          ∃ t, e = .arrive t (.openGate s.data.owner))) ∧
      (s.data.inside = [] →
        (∀ t, Monitor.suspended s t = false →
          Succeeds s t (.waitDrained s.data.owner) ∧ Succeeds s t (.openGate s.data.owner)) ∧
        ∀ w ∈ s.waiting, w.notified = true) := by
  have hsound := sound_of_reaches h
  have hcalm := (mutationGate τ).calm_of_reaches h
  refine ⟨hsound.active, fun o ho hne => (hsound.drained o ho hne).2, ?_, ?_⟩
  · intro e s' hstep hchanged
    rcases (mutationGate τ).step_cases hcalm hstep with
      ⟨t, call, g, rfl, -, harrive, rfl⟩ | ⟨w, a, b, cancelled, hsplit, -, rfl⟩
    · obtain ⟨howner, hdegraded, hactive⟩ := owner_of_arrive harrive
      rcases owner_body t call false g with hsame | hnew | ⟨hnil, hcall, hzero⟩
      · exact absurd (hsame.trans howner) hchanged
      · left
        rw [howner, hdegraded] at hnew
        exact hnew
      · right
        exact ⟨hnil, hactive ▸ hzero, t, by rw [hcall, howner]⟩
    · obtain ⟨owner, hpoint⟩ := hsound.points w (by rw [hsplit]; simp)
      rcases owner_body w.task w.point cancelled s.data with hsame | hnew | ⟨-, hcall, -⟩
      · exact absurd hsame hchanged
      · exact Or.inl hnew
      · rw [hpoint] at hcall
        cases hcall
  · intro hempty
    have hzero : s.data.active = 0 := by rw [hsound.active, hempty]; rfl
    refine ⟨fun t hfree => ?_, hsound.woken hzero⟩
    have hcall : ∀ call, gateArrive t call s.data = some s.data →
        (gateBody t call false s.data).data.replies = (t, .done) :: s.data.replies →
        Succeeds s t call := by
      intro call harrive hreply
      refine ⟨(mutationGate τ).after s s.data s.waiting t call false, ?_, hreply⟩
      have harrive' : (mutationGate τ).arrive t call s.data = some s.data := harrive
      simp only [Monitor.step, hfree, Bool.false_eq_true, if_false, harrive', Option.map_some]
      exact congrArg some ((mutationGate τ).enter_of_calm hcalm s.data s.waiting t call false false)
    constructor
    · refine hcall _ rfl ?_
      simp [gateBody, drainLoop, hzero, MutationGate.reply]
    · refine hcall _ rfl ?_
      simp [gateBody, hzero, MutationGate.reply]

/-- A reset that closes the gate while a request is inside drains after the request has left. -/
theorem mutation_gate_drains_one_request :
    ∃ s : MonitorState Nat Call (MutationGate Nat),
      (mutationGate Nat).machine.Reaches Machine.anyStep s ∧
        s.data.drained = [['j']] ∧ s.data.active = s.data.inside.length := by
  have hstart : (mutationGate Nat).machine.start
      ⟨⟨[], 0, false, [], [], []⟩, false, [], []⟩ := ⟨rfl, rfl, rfl, rfl⟩
  have hrun : ((mutationGate Nat).machine.run ⟨⟨[], 0, false, [], [], []⟩, false, [], []⟩
      [.arrive 0 .admitting, .arrive 1 (.close ['j']), .arrive 1 (.waitDrained ['j']),
        .arrive 0 .leave, .wake 1]).any
      (fun s => decide (s.data.drained = [['j']])) = true := by decide
  obtain ⟨s, -, hs, hdrained⟩ := Machine.reaches_of_run _ _ _ _ hstart hrun
  exact ⟨s, hs, of_decide_eq_true hdrained, (mutation_gate_drains hs).1⟩

end AgenticKibana.Gates
