import AgenticKibana.Library.Machine

/-!
# Tasks that share a condition variable

A `Monitor` is the code that several tasks of one event loop run under one condition variable:
`async with condition` around sections that wait for the condition or end.  Inside a section a
task is suspended only in `wait`, which gives the lock back.  The lock and the tasks suspended in
`acquire` are nevertheless part of the state; that none ever is suspended there is a theorem
(`calm_of_reaches`), and with it every section runs on arrival.
-/

namespace AgenticKibana.Library

/-- How a section goes on: the data it leaves, whether it notified all that wait, and the point
where it waits itself, if it does not end. -/
structure Outcome (Point Data : Type) where
  data : Data
  notify : Bool
  next : Option Point

/-- The code under a condition variable.  `arrive` is what a task does on its way to the lock,
`none` where it cannot come to this section; `body` is a section from a point on, with the lock
held and a flag that says whether the wait was cancelled. -/
structure Monitor (τ Point Data : Type) where
  start : Data → Prop
  arrive : τ → Point → Data → Option Data
  body : τ → Point → Bool → Data → Outcome Point Data

/-- A task suspended in `wait`. -/
structure Waiter (τ Point : Type) where
  task : τ
  point : Point
  notified : Bool

/-- A task suspended in `acquire`: on its way into a section, or back into one after a wait. -/
structure Acquirer (τ Point : Type) where
  task : τ
  point : Point
  again : Bool
  cancelled : Bool

structure MonitorState (τ Point Data : Type) where
  data : Data
  locked : Bool
  acquiring : List (Acquirer τ Point)
  waiting : List (Waiter τ Point)

inductive MonitorTurn (τ Point : Type) where
  /-- A task comes to a section. -/
  | arrive (task : τ) (point : Point)
  /-- The first task that waits for the lock gets it. -/
  | proceed
  /-- A notified task runs. -/
  | wake (task : τ)
  /-- A suspended task is cancelled. -/
  | cancel (task : τ)

namespace Monitor

variable {τ Point Data : Type} (M : Monitor τ Point Data)

/-! ### Sections -/

/-- The tasks in `wait` after a section that ended or waits. -/
def settle (o : Outcome Point Data) (t : τ) (ws : List (Waiter τ Point)) :
    List (Waiter τ Point) :=
  let ws := if o.notify then ws.map fun w => { w with notified := true } else ws
  match o.next with
  | some point => ws ++ [⟨t, point, false⟩]
  | none => ws

def runSection (s : MonitorState τ Point Data) (t : τ) (point : Point) (cancelled : Bool) :
    MonitorState τ Point Data :=
  let o := M.body t point cancelled s.data
  { s with data := o.data, locked := false, waiting := settle o t s.waiting }

/-- `Lock.acquire`: a free lock that nobody waits for is taken at once, and the task goes on. -/
def enter (s : MonitorState τ Point Data) (t : τ) (point : Point) (again cancelled : Bool) :
    MonitorState τ Point Data :=
  if s.locked = false ∧ s.acquiring.isEmpty then
    M.runSection { s with locked := true } t point cancelled
  else { s with acquiring := s.acquiring ++ [⟨t, point, again, cancelled⟩] }

/-- The lock is free and nobody is suspended in `acquire`. -/
structure Calm (s : MonitorState τ Point Data) : Prop where
  unlocked : s.locked = false
  acquiring : s.acquiring = []

def after (s : MonitorState τ Point Data) (data : Data) (waiting : List (Waiter τ Point)) (t : τ)
    (point : Point) (cancelled : Bool) : MonitorState τ Point Data :=
  let o := M.body t point cancelled data
  { s with data := o.data, waiting := settle o t waiting }

variable {s : MonitorState τ Point Data}

theorem enter_of_calm (hs : Calm s) (data : Data)
    (waiting : List (Waiter τ Point)) (t : τ) (point : Point) (again cancelled : Bool) :
    M.enter { s with data, waiting } t point again cancelled =
      M.after s data waiting t point cancelled := by
  have hfree : s.locked = false ∧ s.acquiring.isEmpty = true :=
    ⟨hs.unlocked, by simp [hs.acquiring]⟩
  simp only [enter, hfree, and_self, if_true, runSection, after]

theorem calm_after (hs : Calm s) (data : Data)
    (waiting : List (Waiter τ Point)) (t : τ) (point : Point) (cancelled : Bool) :
    Calm (M.after s data waiting t point cancelled) := by
  constructor
  · exact hs.unlocked
  · exact hs.acquiring

theorem countP_settle (kind : Point → Bool) (o : Outcome Point Data) (t : τ)
    (ws : List (Waiter τ Point)) :
    (settle o t ws).countP (fun w => kind w.point) =
      ws.countP (fun w => kind w.point) + if o.next.any kind then 1 else 0 := by
  have hnotified : (ws.map fun w => { w with notified := true }).countP (fun w => kind w.point) =
      ws.countP fun w => kind w.point := by
    rw [List.countP_map]
    rfl
  unfold settle
  cases o.next with
  | none => cases o.notify <;> simp [hnotified]
  | some point =>
    cases hkind : kind point <;> cases o.notify <;>
      simp [List.countP_append, hnotified, hkind]

theorem forall_settle (kind : Point → Prop) {o : Outcome Point Data} {t : τ}
    {ws : List (Waiter τ Point)} (hws : ∀ w ∈ ws, kind w.point)
    (hnext : ∀ point, o.next = some point → kind point) :
    ∀ w ∈ settle o t ws, kind w.point := by
  have hnotified : ∀ w ∈ (if o.notify then ws.map fun w => { w with notified := true } else ws),
      kind w.point := by
    cases o.notify with
    | true =>
      intro w hw
      obtain ⟨w', hw', rfl⟩ := List.mem_map.mp hw
      exact hws w' hw'
    | false => exact hws
  intro w hw
  unfold settle at hw
  cases hpoint : o.next with
  | none =>
    rw [hpoint] at hw
    exact hnotified w hw
  | some point =>
    rw [hpoint] at hw
    rcases List.mem_append.mp hw with hold | hnew
    · exact hnotified w hold
    · rw [List.mem_singleton.mp hnew]
      exact hnext point hpoint

variable [DecidableEq τ]

def suspended (s : MonitorState τ Point Data) (t : τ) : Bool :=
  s.acquiring.any (fun a => a.task = t) || s.waiting.any fun w => w.task = t

def takeOut {α : Type} (p : α → Bool) : List α → Option (α × List α)
  | [] => none
  | x :: xs => if p x then some (x, xs) else (takeOut p xs).map fun r => (r.1, x :: r.2)

def step (s : MonitorState τ Point Data) : MonitorTurn τ Point → Option (MonitorState τ Point Data)
  | .arrive t point =>
    if suspended s t then none
    else (M.arrive t point s.data).map fun data => M.enter { s with data } t point false false
  | .proceed =>
    match s.acquiring with
    | [] => none
    | a :: rest =>
      if s.locked then none
      else some (M.runSection { s with acquiring := rest, locked := true } a.task a.point
        a.cancelled)
  | .wake t =>
    (takeOut (fun w => w.task = t && w.notified) s.waiting).map fun r =>
      M.enter { s with waiting := r.2 } t r.1.point true false
  | .cancel t =>
    match takeOut (fun w => w.task = t) s.waiting with
    -- a cancelled wait takes the lock again before it raises
    | some r => some (M.enter { s with waiting := r.2 } t r.1.point true true)
    | none =>
      (takeOut (fun a => a.task = t) s.acquiring).map fun r =>
        if r.1.again then
          { s with acquiring := s.acquiring.map fun a =>
            if a.task = t then { a with cancelled := true } else a }
        -- on its way in the task gives up, and the section never runs
        else { s with acquiring := r.2 }

def machine : Machine (MonitorState τ Point Data) (MonitorTurn τ Point) where
  start s := M.start s.data ∧ s.locked = false ∧ s.acquiring = [] ∧ s.waiting = []
  step := M.step

theorem takeOut_eq_some {α : Type} {p : α → Bool} {l : List α} {x : α} {rest : List α}
    (h : takeOut p l = some (x, rest)) :
    p x = true ∧ ∃ a b, l = a ++ x :: b ∧ rest = a ++ b := by
  induction l generalizing rest with
  | nil => cases h
  | cons y ys ih =>
    simp only [takeOut] at h
    by_cases hy : p y = true
    · rw [if_pos hy] at h
      simp only [Option.some.injEq, Prod.mk.injEq] at h
      obtain ⟨rfl, rfl⟩ := h
      exact ⟨hy, [], ys, rfl, rfl⟩
    · rw [if_neg hy] at h
      obtain ⟨⟨z, r⟩, hz, heq⟩ := Option.map_eq_some_iff.mp h
      simp only [Prod.mk.injEq] at heq
      obtain ⟨rfl, rfl⟩ := heq
      obtain ⟨hp, a, b, rfl, rfl⟩ := ih hz
      exact ⟨hp, y :: a, b, rfl, rfl⟩

/-- **What a turn does while nobody waits for the lock**: a task that comes to a section, or one
that waited, runs its section at once. -/
theorem step_cases {s' : MonitorState τ Point Data} {e : MonitorTurn τ Point} (hs : Calm s)
    (h : M.step s e = some s') :
    (∃ t point data, e = .arrive t point ∧ suspended s t = false ∧
      M.arrive t point s.data = some data ∧ s' = M.after s data s.waiting t point false) ∨
    (∃ w a b cancelled, s.waiting = a ++ w :: b ∧
      (e = .wake w.task ∧ cancelled = false ∧ w.notified = true ∨
        e = .cancel w.task ∧ cancelled = true) ∧
      s' = M.after s s.data (a ++ b) w.task w.point cancelled) := by
  cases e with
  | arrive t point =>
    left
    simp only [step] at h
    by_cases hsusp : suspended s t = true
    · rw [if_pos hsusp] at h
      cases h
    · rw [if_neg hsusp] at h
      obtain ⟨data, hdata, rfl⟩ := Option.map_eq_some_iff.mp h
      exact ⟨t, point, data, rfl, by simpa using hsusp, hdata,
        M.enter_of_calm hs data s.waiting t point false false⟩
  | proceed =>
    simp only [step, hs.acquiring] at h
    cases h
  | wake t =>
    right
    simp only [step] at h
    obtain ⟨⟨w, rest⟩, hout, rfl⟩ := Option.map_eq_some_iff.mp h
    obtain ⟨hp, a, b, hsplit, rfl⟩ := takeOut_eq_some hout
    simp only [Bool.and_eq_true, decide_eq_true_eq] at hp
    obtain ⟨rfl, hnotified⟩ := hp
    exact ⟨w, a, b, false, hsplit, Or.inl ⟨rfl, rfl, hnotified⟩,
      M.enter_of_calm hs s.data (a ++ b) w.task w.point true false⟩
  | cancel t =>
    right
    simp only [step, hs.acquiring] at h
    cases hout : takeOut (fun w => decide (w.task = t)) s.waiting with
    | none =>
      rw [hout] at h
      cases h
    | some r =>
      rw [hout] at h
      obtain ⟨w, rest⟩ := r
      obtain ⟨hp, a, b, hsplit, rfl⟩ := takeOut_eq_some hout
      obtain rfl := of_decide_eq_true hp
      simp only [Option.some.injEq] at h
      refine ⟨w, a, b, true, hsplit, Or.inr ⟨rfl, rfl⟩, ?_⟩
      rw [← h]
      rw [← M.enter_of_calm hs s.data (a ++ b) w.task w.point true true, ← hs.acquiring]

/-- **Nobody ever waits for the lock**, so no cancellation can come there. -/
theorem calm_of_reaches (h : M.machine.Reaches Machine.anyStep s) :
    Calm s := by
  refine Machine.invariant (I := Calm) ?_ ?_ h
  · rintro s ⟨-, hlocked, hacquiring, -⟩
    exact ⟨hlocked, hacquiring⟩
  · intro s e s' hs _ hstep
    rcases M.step_cases hs hstep with ⟨t, point, data, -, -, -, rfl⟩ | ⟨w, a, b, c, -, -, rfl⟩
    · exact M.calm_after hs data s.waiting t point false
    · exact M.calm_after hs s.data (a ++ b) w.task w.point c

/-- **The induction over the turns**: what holds at the start and survives every section, run on
arrival or after a wait, holds in every state. -/
theorem invariant {I : Data → List (Waiter τ Point) → Prop}
    (hstart : ∀ data, M.start data → I data [])
    (harrive : ∀ data data' ws t point, I data ws → M.arrive t point data = some data' →
      I (M.body t point false data').data (settle (M.body t point false data') t ws))
    (hresume : ∀ data a w b cancelled, I data (a ++ w :: b) →
      I (M.body w.task w.point cancelled data).data
        (settle (M.body w.task w.point cancelled data) w.task (a ++ b)))
          (h : M.machine.Reaches Machine.anyStep s) :
    I s.data s.waiting := by
  have hboth : Calm s ∧ I s.data s.waiting := by
    refine Machine.invariant (I := fun s => Calm s ∧ I s.data s.waiting) ?_ ?_ h
    · rintro s ⟨hdata, hlocked, hacquiring, hwaiting⟩
      exact ⟨⟨hlocked, hacquiring⟩, hwaiting ▸ hstart s.data hdata⟩
    · rintro s e s' ⟨hs, hI⟩ _ hstep
      rcases M.step_cases hs hstep with ⟨t, point, data, -, -, hdata, rfl⟩ |
        ⟨w, a, b, c, hsplit, -, rfl⟩
      · exact ⟨M.calm_after hs _ _ _ _ _, harrive s.data data s.waiting t point hI hdata⟩
      · exact ⟨M.calm_after hs _ _ _ _ _, hresume s.data a w b c (hsplit ▸ hI)⟩
  exact hboth.2

end Monitor

end AgenticKibana.Library
