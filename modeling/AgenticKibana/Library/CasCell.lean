import AgenticKibana.Library.Machine
import Mathlib.Logic.Function.Basic

/-!
# A document shared under compare-and-set

Any number of clients read the document with its revision, compute a replacement, and write it if
the revision is still the one that was read.  A lost race starts over, a bounded number of times;
a change that refuses aborts before any write; a backend call may fail before it takes effect,
take effect and lose its response, or never be made.

What is written is the change applied to the document as it stands at the write
(`Commits.change_eq`), and nothing else writes (`step_doc`), so the cell refines the machine that
applies the changes one at a time (`atomic_run`).
-/

namespace AgenticKibana.Library.CasCell

/-- What the clients of a cell can do.  `change` is the mutator a call runs on a
document it has read; what it needs besides the document and the call's own
arguments (the clock, fresh identifiers) comes with each attempt as an `Env`,
about which `admissible` says what the environment guarantees. -/
structure Interface where
  Doc : Type
  Op : Type
  Env : Type
  Val : Type
  Err : Type
  Query : Type
  Answer : Type
  init : Doc
  attempts : Nat
  admissible : Op → Env → Doc → Bool
  change : Op → Env → Doc → Except Err (Val × Doc)
  answer : Query → Doc → Doc → Answer

/-- Why a call raised: its own change refused, the backend failed, or every
attempt lost its race. -/
inductive Failure (ε : Type) where
  | refused (e : ε)
  | backend
  | conflict
deriving DecidableEq, Repr

inductive Phase (I : Interface) where
  | idle
  | calling (op : I.Op) (left : Nat)
  | proposed (op : I.Op) (env : I.Env) (left : Nat) (val : I.Val) (next : I.Doc) (base : Nat)
  | asking (q : I.Query)
  | asked (q : I.Query) (first : I.Doc)
  | returned (val : I.Val)
  | raised (e : Failure I.Err)
  | answered (a : I.Answer)

def Phase.settled {I : Interface} : Phase I → Bool
  | .idle | .returned _ | .raised _ | .answered _ => true
  | _ => false

/-- The document with its revision, and the clients. -/
structure State (I : Interface) where
  doc : I.Doc
  rev : Nat
  phase : Nat → Phase I

inductive Event (I : Interface) where
  | call (c : Nat) (op : I.Op)
  | read (c : Nat) (env : I.Env)
  | readFails (c : Nat)
  | put (c : Nat)
  | putFails (c : Nat)
  | putLost (c : Nat)
  | ask (c : Nat) (q : I.Query)
  | look (c : Nat)
  | reply (c : Nat)
  | stop (c : Nat)

variable {I : Interface}

def State.setPhase (s : State I) (c : Nat) (p : Phase I) : State I :=
  { s with phase := Function.update s.phase c p }

@[simp] theorem State.setPhase_doc (s : State I) (c : Nat) (p : Phase I) :
    (s.setPhase c p).doc = s.doc := rfl

@[simp] theorem State.setPhase_rev (s : State I) (c : Nat) (p : Phase I) :
    (s.setPhase c p).rev = s.rev := rfl

@[simp] theorem State.setPhase_phase_self (s : State I) (c : Nat) (p : Phase I) :
    (s.setPhase c p).phase c = p := by
  simp [State.setPhase]

variable {c : Nat} {env : I.Env} {s t : State I} {e : Event I} {op : I.Op} {val : I.Val}
  {P : State I → Event I → Prop} {c' : Nat}

theorem State.setPhase_phase_of_ne (s : State I) (p : Phase I) (h : c' ≠ c) :
    (s.setPhase c p).phase c' = s.phase c' := by
  simp [State.setPhase, h]

def attempt (s : State I) (c : Nat) (op : I.Op) (left : Nat) (env : I.Env) : Option (State I) :=
  if I.admissible op env s.doc then
    match I.change op env s.doc with
    | .error e => some (s.setPhase c (.raised (.refused e)))
    | .ok (val, next) => some (s.setPhase c (.proposed op env left val next s.rev))
  else none

def step (s : State I) : Event I → Option (State I)
  | .call c op =>
    if (s.phase c).settled then some (s.setPhase c (.calling op I.attempts)) else none
  | .read c env =>
    match s.phase c with
    | .calling op (left + 1) => attempt s c op left env
    | .calling _ 0 => some (s.setPhase c (.raised .conflict))
    | _ => none
  | .readFails c =>
    match s.phase c with
    | .calling _ _ | .asking _ | .asked _ _ => some (s.setPhase c (.raised .backend))
    | _ => none
  | .put c =>
    match s.phase c with
    | .proposed op _ left val next base =>
      if base = s.rev then
        some { (s.setPhase c (.returned val)) with doc := next, rev := s.rev + 1 }
      else some (s.setPhase c (.calling op left))
    | _ => none
  | .putFails c =>
    match s.phase c with
    | .proposed .. => some (s.setPhase c (.raised .backend))
    | _ => none
  | .putLost c =>
    match s.phase c with
    | .proposed _ _ _ _ next base =>
      if base = s.rev then
        some { (s.setPhase c (.raised .backend)) with doc := next, rev := s.rev + 1 }
      else some (s.setPhase c (.raised .backend))
    | _ => none
  | .ask c q => if (s.phase c).settled then some (s.setPhase c (.asking q)) else none
  | .look c =>
    match s.phase c with
    | .asking q => some (s.setPhase c (.asked q s.doc))
    | _ => none
  | .reply c =>
    match s.phase c with
    | .asked q first => some (s.setPhase c (.answered (I.answer q first s.doc)))
    | _ => none
  | .stop c => some (s.setPhase c .idle)

def cell (I : Interface) : Machine (State I) (Event I) where
  start s := s.doc = I.init ∧ s.rev = 0 ∧ ∀ c, s.phase c = .idle
  step := step

def atomic (I : Interface) : Machine I.Doc (I.Op × I.Env) where
  start d := d = I.init
  step d e :=
    if I.admissible e.1 e.2 d then
      match I.change e.1 e.2 d with
      | .error _ => some d
      | .ok (_, next) => some next
    else none

/-! ### What a step can be

One constructor per way a step can go; every invariant of the cell is a case
analysis over these. -/

inductive Stepped (s : State I) : Event I → State I → Prop
  | called {c : Nat} {op : I.Op} (h : (s.phase c).settled = true) :
      Stepped s (.call c op) (s.setPhase c (.calling op I.attempts))
  | refused {c : Nat} {op : I.Op} {left : Nat} {env : I.Env} {e : I.Err}
      (h : s.phase c = .calling op (left + 1)) (hadm : I.admissible op env s.doc = true)
      (hchange : I.change op env s.doc = .error e) :
      Stepped s (.read c env) (s.setPhase c (.raised (.refused e)))
  | proposed {c : Nat} {op : I.Op} {left : Nat} {env : I.Env} {val : I.Val} {next : I.Doc}
      (h : s.phase c = .calling op (left + 1)) (hadm : I.admissible op env s.doc = true)
      (hchange : I.change op env s.doc = .ok (val, next)) :
      Stepped s (.read c env) (s.setPhase c (.proposed op env left val next s.rev))
  | exhausted {c : Nat} {op : I.Op} {env : I.Env} (h : s.phase c = .calling op 0) :
      Stepped s (.read c env) (s.setPhase c (.raised .conflict))
  | readFailed {c : Nat} : Stepped s (.readFails c) (s.setPhase c (.raised .backend))
  | written {c : Nat} {op : I.Op} {env : I.Env} {left : Nat} {val : I.Val} {next : I.Doc}
      (h : s.phase c = .proposed op env left val next s.rev) :
      Stepped s (.put c) { s.setPhase c (.returned val) with doc := next, rev := s.rev + 1 }
  | lostRace {c : Nat} {op : I.Op} {env : I.Env} {left : Nat} {val : I.Val} {next : I.Doc}
      {base : Nat} (h : s.phase c = .proposed op env left val next base)
      (hbase : base ≠ s.rev) : Stepped s (.put c) (s.setPhase c (.calling op left))
  | putFailed {c : Nat} : Stepped s (.putFails c) (s.setPhase c (.raised .backend))
  | writtenUnseen {c : Nat} {op : I.Op} {env : I.Env} {left : Nat} {val : I.Val}
      {next : I.Doc} (h : s.phase c = .proposed op env left val next s.rev) :
      Stepped s (.putLost c) { s.setPhase c (.raised .backend) with doc := next, rev := s.rev + 1 }
  | lostUnseen {c : Nat} {op : I.Op} {env : I.Env} {left : Nat} {val : I.Val} {next : I.Doc}
      {base : Nat} (h : s.phase c = .proposed op env left val next base)
      (hbase : base ≠ s.rev) : Stepped s (.putLost c) (s.setPhase c (.raised .backend))
  | asked {c : Nat} {q : I.Query} (h : (s.phase c).settled = true) :
      Stepped s (.ask c q) (s.setPhase c (.asking q))
  | looked {c : Nat} {q : I.Query} (h : s.phase c = .asking q) :
      Stepped s (.look c) (s.setPhase c (.asked q s.doc))
  | replied {c : Nat} {q : I.Query} {first : I.Doc} (h : s.phase c = .asked q first) :
      Stepped s (.reply c) (s.setPhase c (.answered (I.answer q first s.doc)))
  | stopped {c : Nat} : Stepped s (.stop c) (s.setPhase c .idle)

theorem stepped_read (h : step s (.read c env) = some t) : Stepped s (.read c env) t := by
  simp only [step] at h
  split at h
  · next op left hphase =>
      unfold attempt at h
      split at h
      · next hadm =>
          split at h
          · next e hchange =>
              cases h
              exact .refused hphase hadm hchange
          · next val next hchange =>
              cases h
              exact .proposed hphase hadm hchange
      · cases h
  · next op hphase =>
      cases h
      exact .exhausted hphase
  · cases h

theorem stepped_put (h : step s (.put c) = some t) :
    Stepped s (.put c) t := by
  simp only [step] at h
  split at h
  · next op env left val next base hphase =>
      by_cases hbase : base = s.rev
      · rw [if_pos hbase] at h
        cases h
        exact .written (hbase ▸ hphase)
      · rw [if_neg hbase] at h
        cases h
        exact .lostRace hphase hbase
  · cases h

theorem stepped_putLost (h : step s (.putLost c) = some t) :
    Stepped s (.putLost c) t := by
  simp only [step] at h
  split at h
  · next op env left val next base hphase =>
      by_cases hbase : base = s.rev
      · rw [if_pos hbase] at h
        cases h
        exact .writtenUnseen (hbase ▸ hphase)
      · rw [if_neg hbase] at h
        cases h
        exact .lostUnseen hphase hbase
  · cases h

theorem stepped_of_step (h : step s e = some t) :
    Stepped s e t := by
  cases e with
  | call c op =>
    simp only [step, Option.ite_none_right_eq_some, Option.some.injEq] at h
    obtain ⟨hsettled, rfl⟩ := h
    exact .called hsettled
  | read c env => exact stepped_read h
  | readFails c =>
    simp only [step] at h
    split at h <;> cases h <;> exact .readFailed
  | put c => exact stepped_put h
  | putFails c =>
    simp only [step] at h
    split at h <;> cases h
    exact .putFailed
  | putLost c => exact stepped_putLost h
  | ask c q =>
    simp only [step, Option.ite_none_right_eq_some, Option.some.injEq] at h
    obtain ⟨hsettled, rfl⟩ := h
    exact .asked hsettled
  | look c =>
    simp only [step] at h
    split at h
    · next q hphase =>
        cases h
        exact .looked hphase
    · cases h
  | reply c =>
    simp only [step] at h
    split at h
    · next q first hphase =>
        cases h
        exact .replied hphase
    · cases h
  | stop c =>
    cases h
    exact .stopped

variable {left : Nat}

theorem step_read_of_refused {e : I.Err} (h : s.phase c = .calling op (left + 1))
    (hadm : I.admissible op env s.doc = true) (hchange : I.change op env s.doc = .error e) :
    step s (.read c env) = some (s.setPhase c (.raised (.refused e))) := by
  simp only [step, h, attempt, hadm, if_true, hchange]

/-! ### Commits -/

/-- The event that writes `op`'s replacement in `s`, with the value the call
computed: a write whose revision is still current. -/
inductive Commits (s : State I) : Event I → I.Op → I.Env → I.Val → I.Doc → Prop
  | put {c : Nat} {op : I.Op} {env : I.Env} {left : Nat} {val : I.Val} {next : I.Doc}
      (h : s.phase c = .proposed op env left val next s.rev) :
      Commits s (.put c) op env val next
  | putLost {c : Nat} {op : I.Op} {env : I.Env} {left : Nat} {val : I.Val} {next : I.Doc}
      (h : s.phase c = .proposed op env left val next s.rev) :
      Commits s (.putLost c) op env val next

structure Commit (I : Interface) where
  op : I.Op
  env : I.Env
  val : I.Val
  next : I.Doc

/-- The commit an event makes in `s`, if it makes one. -/
def committed (s : State I) : Event I → Option (Commit I)
  | .put c | .putLost c =>
    match s.phase c with
    | .proposed op env _ val next base => if base = s.rev then some ⟨op, env, val, next⟩ else none
    | _ => none
  | _ => none

theorem commits_of_committed {k : Commit I}
    (h : committed s e = some k) : Commits s e k.op k.env k.val k.next := by
  cases e with
  | put c | putLost c =>
    simp only [committed] at h
    split at h
    · next op env left val next base hphase =>
        split at h
        · next hbase =>
            cases h
            first
              | exact .put (hbase ▸ hphase)
              | exact .putLost (hbase ▸ hphase)
        · cases h
    · cases h
  | _ => cases h

variable {next : I.Doc}

theorem committed_of_commits (h : Commits s e op env val next) :
    committed s e = some ⟨op, env, val, next⟩ := by
  cases h with
  | put hphase | putLost hphase => simp [committed, hphase]

def Event.client : Event I → Nat
  | .call c _ | .read c _ | .readFails c | .put c | .putFails c | .putLost c | .ask c _
  | .look c | .reply c | .stop c => c

def Phase.operation : Phase I → Option I.Op
  | .calling op _ | .proposed op _ _ _ _ _ => some op
  | _ => none

def solo (c : Nat) (op : I.Op) (env : I.Env) : List (Event I) := [.call c op, .read c env, .put c]

theorem Commits.operation (h : Commits s e op env val next) :
    (s.phase e.client).operation = some op := by
  cases h with
  | put hphase | putLost hphase => simp [Event.client, hphase, Phase.operation]

def Snapshot (s : State I) : Prop :=
  ∀ c op env left val next base, s.phase c = .proposed op env left val next base →
    base ≤ s.rev ∧
      (base = s.rev →
        I.admissible op env s.doc = true ∧ I.change op env s.doc = .ok (val, next))

/-- **What one step does to the document**: it commits, and then the revision goes
up, or it leaves document and revision as they are. -/
theorem step_doc (h : step s e = some t) :
    (t.doc = s.doc ∧ t.rev = s.rev) ∨
    ∃ op env val, Commits s e op env val t.doc ∧ t.rev = s.rev + 1 := by
  cases stepped_of_step h with
  | written hphase => exact .inr ⟨_, _, _, .put hphase, rfl⟩
  | writtenUnseen hphase => exact .inr ⟨_, _, _, .putLost hphase, rfl⟩
  | _ => exact .inl ⟨rfl, rfl⟩

theorem Commits.step_eq (hc : Commits s e op env val next) (h : step s e = some t) :
    t.doc = next := by
  cases hc with
  | put hphase | putLost hphase =>
    simp only [step, hphase, if_true, Option.some.injEq] at h
    rw [← h]

/-- **A call returns only by committing**: when a client in the middle of an operation
returns a value, its step committed the operation with that value. -/
theorem commits_of_returned (h : step s e = some t) (hop : (s.phase e.client).operation = some op)
    (hret : t.phase e.client = .returned val) : ∃ env, Commits s e op env val t.doc := by
  cases stepped_of_step h with
  | written hphase =>
    simp only [Event.client] at hop hret
    rw [hphase, Phase.operation, Option.some.injEq] at hop
    simp only [State.setPhase, Function.update_self, Phase.returned.injEq] at hret
    subst hop hret
    exact ⟨_, .put hphase⟩
  | writtenUnseen hphase =>
    simp [Event.client, State.setPhase] at hret
  | _ => simp [Event.client] at hret

theorem snapshot_start (h : (cell I).start s) : Snapshot s := by
  intro c op env left val next base hphase
  rw [h.2.2 c] at hphase
  cases hphase

/-- A step that leaves the document alone and gives no client a proposal keeps the
snapshot property. -/
theorem Snapshot.frame (hs : Snapshot s) (hdoc : t.doc = s.doc) (hrev : t.rev = s.rev)
    (hphase : ∀ c op env left val next base, t.phase c = .proposed op env left val next base →
      s.phase c = .proposed op env left val next base ∨
      (base = s.rev ∧ I.admissible op env s.doc = true ∧
        I.change op env s.doc = .ok (val, next))) :
    Snapshot t := by
  intro c op env left val next base ht
  rw [hdoc, hrev]
  rcases hphase c op env left val next base ht with h | ⟨hbase, h⟩
  · exact hs c op env left val next base h
  · exact ⟨Nat.le_of_eq hbase, fun _ => h⟩

theorem proposed_of_setPhase {p : Phase I} {base : Nat}
    (hp : ∀ op env left val next base, p ≠ .proposed op env left val next base)
    (h : (s.setPhase c p).phase c' = .proposed op env left val next base) :
    c' ≠ c ∧ s.phase c' = .proposed op env left val next base := by
  by_cases hc : c' = c
  · subst hc
    rw [State.setPhase_phase_self] at h
    exact absurd h (hp op env left val next base)
  · rw [State.setPhase_phase_of_ne s p hc] at h
    exact ⟨hc, h⟩

/-- **A current proposal is computed from the current document.**  A write raises the
revision, so it outdates every other client's proposal. -/
theorem snapshot_step (hs : Snapshot s) (h : step s e = some t) : Snapshot t := by
  have hwritten : ∀ (c : Nat) (p : Phase I) (next : I.Doc),
      (∀ op env left val next base, p ≠ .proposed op env left val next base) →
      Snapshot { s.setPhase c p with doc := next, rev := s.rev + 1 } := by
    intro c p next hp c' op env left val next' base hphase
    obtain ⟨-, hold⟩ := proposed_of_setPhase hp hphase
    have hle := (hs c' op env left val next' base hold).1
    exact ⟨Nat.le_succ_of_le hle, fun heq => absurd hle (by simp only at heq; omega)⟩
  have hquiet : ∀ (c : Nat) (p : Phase I),
      (∀ op env left val next base, p ≠ .proposed op env left val next base) →
      Snapshot (s.setPhase c p) := by
    intro c p hp
    refine hs.frame rfl rfl fun c' op env left val next base hphase => ?_
    exact .inl (proposed_of_setPhase hp hphase).2
  cases stepped_of_step h with
  | @proposed c op left env val next hphase hadm hchange =>
    refine hs.frame rfl rfl fun c' op' env' left' val' next' base' h' => ?_
    by_cases hc : c' = c
    · subst hc
      rw [State.setPhase_phase_self] at h'
      cases h'
      exact .inr ⟨rfl, hadm, hchange⟩
    · rw [State.setPhase_phase_of_ne s _ hc] at h'
      exact .inl h'
  | written hphase | writtenUnseen hphase => exact hwritten _ _ _ (by intros; simp)
  | _ => exact hquiet _ _ (by intros; simp)

/-- The snapshot property holds in every state a run of the cell reaches, whatever
condition its steps are restricted to. -/
theorem snapshot_of_reaches (h : (cell I).Reaches P s) : Snapshot s :=
  Machine.invariant (fun _ => snapshot_start) (fun _ _ _ hs _ hstep => snapshot_step hs hstep) h

/-- **A commit is atomic**: what is written is the change applied to the document as
it stands at the write. -/
theorem Commits.change_eq (hs : Snapshot s) (hc : Commits s e op env val next) :
    I.admissible op env s.doc = true ∧ I.change op env s.doc = .ok (val, next) := by
  cases hc with
  | put hphase | putLost hphase => exact (hs _ _ _ _ _ _ _ hphase).2 rfl

variable {D : I.Doc → Prop}

/-- An invariant of the changes is an invariant of the document under every
interleaving: `P` restricts the commits only. -/
theorem doc_invariant (hinit : D I.init)
    (hchange : ∀ s e op env val next, D s.doc → P s e → Commits s e op env val next →
      I.admissible op env s.doc = true → I.change op env s.doc = .ok (val, next) → D next)
    (h : (cell I).Reaches P s) : D s.doc := by
  refine Machine.reaches_induction (I := fun s => D s.doc) ?_ ?_ h
  · intro s hs
    exact hs.1 ▸ hinit
  · intro s e t hreach hD hP hstep
    rcases step_doc hstep with ⟨hdoc, -⟩ | ⟨op, env, val, hc, -⟩
    · rw [hdoc]
      exact hD
    · obtain ⟨hadm, hch⟩ := hc.change_eq (snapshot_of_reaches hreach)
      exact hchange s e op env val t.doc hD hP hc hadm hch

theorem doc_run {es : List (Event I)} (hs : Snapshot s) (hD : D s.doc)
    (hchange : ∀ s e op env val next, D s.doc → P s e → Commits s e op env val next →
      I.admissible op env s.doc = true → I.change op env s.doc = .ok (val, next) → D next)
    (hP : (cell I).Throughout P s es) (hrun : (cell I).run s es = some t) : D t.doc := by
  refine (Machine.run_preserves (I := fun s => Snapshot s ∧ D s.doc) ?_ ⟨hs, hD⟩ hP hrun).2
  rintro s e t ⟨hs, hD⟩ hP hstep
  refine ⟨snapshot_step hs hstep, ?_⟩
  rcases step_doc hstep with ⟨hdoc, -⟩ | ⟨op, env, val, hc, -⟩
  · rw [hdoc]
    exact hD
  · obtain ⟨hadm, hch⟩ := hc.change_eq hs
    exact hchange s e op env val t.doc hD hP hc hadm hch

/-! ### The changes of a run, one after the other -/

/-- What was committed in a run, in the order of the commits. -/
def ops : State I → List (Event I) → List (I.Op × I.Env)
  | _, [] => []
  | s, e :: es =>
    match step s e with
    | none => []
    | some t => ((committed s e).map fun k => (k.op, k.env)).toList ++ ops t es

variable {es fs : List (Event I)}

theorem ops_append (hrun : (cell I).run s es = some t) :
    ops s (es ++ fs) = ops s es ++ ops t fs := by
  induction es generalizing s with
  | nil =>
    cases hrun
    rfl
  | cons e es ih =>
    obtain ⟨u, hu, hrest⟩ := Machine.run_cons.mp hrun
    change step s e = some u at hu
    simp only [List.cons_append, ops, hu, ih hrest, List.append_assoc]

/-- **The cell refines the machine that applies the changes one at a time.** -/
theorem atomic_run (hs : Snapshot s) (hrun : (cell I).run s es = some t) :
    (atomic I).run s.doc (ops s es) = some t.doc ∧ t.rev = s.rev + (ops s es).length := by
  induction es generalizing s with
  | nil =>
    cases hrun
    exact ⟨rfl, rfl⟩
  | cons e es ih =>
    obtain ⟨u, hu, hrest⟩ := Machine.run_cons.mp hrun
    change step s e = some u at hu
    obtain ⟨hdoc, hrev⟩ := ih (snapshot_step hs hu) hrest
    simp only [ops, hu]
    rcases step_doc hu with ⟨hdoc', hrev'⟩ | ⟨op, env, val, hc, hrev'⟩
    · cases hcommitted : committed s e with
      | none => exact ⟨hdoc' ▸ hdoc, hrev' ▸ hrev⟩
      | some k =>
        have hc := commits_of_committed hcommitted
        rcases hc with hphase | hphase <;> simp [step, hphase] at hu <;> subst hu <;> simp at hrev'
    · obtain ⟨hadm, hchange⟩ := hc.change_eq hs
      simp only [committed_of_commits hc, Option.map_some, Option.toList_some, List.cons_append,
        List.nil_append, Machine.run, atomic, hadm, if_true, hchange, Option.bind_some,
        List.length_cons]
      exact ⟨hdoc, by omega⟩

/-- A call refuses by the document that it read, and changes nothing. -/
theorem refused_of_raised {err : I.Err} (h : step s e = some t)
    (hop : (s.phase e.client).operation = some op)
    (hraised : t.phase e.client = .raised (.refused err)) :
    ∃ env, I.admissible op env s.doc = true ∧ I.change op env s.doc = .error err ∧
      t.doc = s.doc := by
  cases stepped_of_step h with
  | refused hphase hadm hchange =>
    simp only [Event.client] at hop hraised
    rw [hphase, Phase.operation, Option.some.injEq] at hop
    rw [State.setPhase_phase_self, Phase.raised.injEq, Failure.refused.injEq] at hraised
    subst hop hraised
    exact ⟨_, hadm, hchange, rfl⟩
  | _ => simp [Event.client, State.setPhase] at hraised

end AgenticKibana.Library.CasCell
