import AgenticKibana.Library.Clients
import Mathlib.Data.List.Chain

/-!
# A key-value document and `kv_mutate`

Most of the Console's own state is one JSON document, changed by `kv_mutate`: read it, compute the
new value, and write that under a compare-and-set on `_rev`.  A read that fails is treated as a
missing document, which has revision 0.

Apart from failed reads, the writes are computed from the value they replace in every run in which
no client uses `put`, which sets the revision to 0, and in every run in which no client is
interrupted.
-/

namespace AgenticKibana.Stores

open AgenticKibana.Library

/-- A stored document: its value, the empty one where there is none, and its `_rev`. -/
structure Document (V : Type) where
  value : V
  rev : Nat

/-- How an access to the backend ends: answered, failed before it took effect, or after. -/
inductive Fault where
  | answered
  | lost
  | unseen
  deriving DecidableEq

variable {V M X E A F W : Type}

/-- The accesses of a client: `get`, the clock and fresh values, the compare-and-set of a
value computed for the change `m` from what was read, the unconditional `put`, and what
else the client does. -/
inductive Act (V M E X : Type) where
  | get
  | moment
  | putIf (m : M) (moment : E) (current : Option (Document V)) (value : V)
  | put (value : V)
  | other (x : X)

/-- The answers: `none` is a failed read or a write that raised. -/
def Act.Reply (R : X → Type) : Act V M E X → Type
  | .get => Option (Document V)
  | .moment => E
  | .putIf .. => Option Bool
  | .put _ => Bool
  | .other x => R x

structure Answer (E A : Type) where
  fault : Fault
  moment : E
  other : A

structure State (V W : Type) where
  doc : Document V
  rest : W

def revOf (current : Option (Document V)) : Nat := (current.map Document.rev).getD 0

def valueOf (empty : V) (current : Option (Document V)) : V :=
  (current.map Document.value).getD empty

@[simp] theorem revOf_some (d : Document V) : revOf (some d) = d.rev := rfl

@[simp] theorem revOf_none : revOf (none : Option (Document V)) = 0 := rfl

@[simp] theorem valueOf_some (empty : V) (d : Document V) : valueOf empty (some d) = d.value := rfl

@[simp] theorem valueOf_none (empty : V) : valueOf empty none = empty := rfl

/-- The document after a compare-and-set of `value` on the revision `base`. -/
def Document.putIf (d : Document V) (value : V) (base : Nat) : Document V :=
  if d.rev = base then ⟨value, base + 1⟩ else d

variable {R : X → Type}

/-- The accesses served on a shared state; `other` serves what is not the document's. -/
def service (other : Nat → (x : X) → A → State V W → Option (State V W × R x)) :
    Service (Act.Reply (V := V) (M := M) (E := E) R) (Answer E A) (State V W) where
  serve τ a answer s :=
    match a with
    | .get =>
      match answer.fault with
      | .answered => some (s, some s.doc)
      | _ => some (s, none)
    | .moment => some (s, answer.moment)
    | .putIf _ _ current value =>
      match answer.fault with
      | .answered =>
        some ({ s with doc := s.doc.putIf value (revOf current) },
          some (decide (s.doc.rev = revOf current)))
      | .lost => some (s, none)
      | .unseen => some ({ s with doc := s.doc.putIf value (revOf current) }, none)
    | .put value =>
      match answer.fault with
      | .answered => some ({ s with doc := ⟨value, 0⟩ }, true)
      | .lost => some (s, false)
      | .unseen => some ({ s with doc := ⟨value, 0⟩ }, false)
    | .other x => other τ x answer.other s

abbrev Program (V M E F : Type) (R : X → Type) (α : Type) : Type :=
  @Code (Act V M E X) (Act.Reply R) F α

def get : Program V M E F R (Option (Document V)) := .act .get .ret

def moment : Program V M E F R E := .act .moment .ret

def putIf (m : M) (e : E) (current : Option (Document V)) (value : V) :
    Program V M E F R (Option Bool) :=
  .act (.putIf m e current value) .ret

def put (value : V) : Program V M E F R Bool := .act (.put value) .ret

def other (x : X) : Program V M E F R (R x) := .act (.other x) .ret

/-- The last attempt of a `kv_mutate`: what it read and drew. -/
structure Attempt (V E : Type) where
  moment : E
  current : Option (Document V)

def kvMutateRetries : Nat := 8

/-- `kv_mutate` with `attempts` left; it answers with its last attempt, whether that one was
persisted or not. -/
def kvMutate (empty : V) (apply : M → E → V → Except F V) (m : M) :
    Nat → Option (Attempt V E) → Program V M E F R (Option (Attempt V E))
  | 0, last => pure last
  | attempts + 1, _ => do
      let current ← get
      let e ← moment
      match apply m e (valueOf empty current) with
      | .error failure => .raise failure
      | .ok value => do
          let ok ← putIf m e current value
          match ok with
          | some false => kvMutate empty apply m attempts (some ⟨e, current⟩)
          | _ => pure (some ⟨e, current⟩)

/-! ### What `kv_mutate` does by itself -/

abbrev Step (V M E W : Type) (R : X → Type) : Type := Access (@Act.Reply V M X E R) (State V W)

variable {s t : State V W} {τ : Nat}

theorem serve_putIf {other : Nat → (x : X) → A → State V W → Option (State V W × R x)}
    {m : M} {e : E} {current : Option (Document V)} {value : V} {answer : Answer E A}
    {r : Act.Reply R (.putIf m e current value)}
    (h : (service other).serve τ (.putIf m e current value) answer s = some (t, r)) :
    t.rest = s.rest ∧ (t.doc = s.doc ∨
      s.doc.rev = revOf current ∧ t.doc = ⟨value, revOf current + 1⟩) := by
  have hset : ∀ d : Document V, d.putIf value (revOf current) = d ∨
      d.rev = revOf current ∧ d.putIf value (revOf current) = ⟨value, revOf current + 1⟩ := by
    intro d
    unfold Document.putIf
    by_cases hrev : d.rev = revOf current
    · rw [if_pos hrev]
      exact .inr ⟨hrev, rfl⟩
    · rw [if_neg hrev]
      exact .inl rfl
  simp only [service] at h
  split at h
  · cases h
    exact ⟨rfl, hset s.doc⟩
  · cases h
    exact ⟨rfl, .inl rfl⟩
  · cases h
    exact ⟨rfl, hset s.doc⟩

theorem serve_get {other : Nat → (x : X) → A → State V W → Option (State V W × R x)}
    {answer : Answer E A} {r : Option (Document V)}
    (h : (service (M := M) other).serve τ .get answer s = some (t, r)) :
    t = s ∧ (r = none ∨ r = some s.doc) := by
  simp only [service] at h
  split at h
  · cases h
    exact ⟨rfl, .inr rfl⟩
  · cases h
    exact ⟨rfl, .inl rfl⟩

theorem serve_moment {other : Nat → (x : X) → A → State V W → Option (State V W × R x)}
    {answer : Answer E A} {r : E}
    (h : (service (M := M) other).serve τ .moment answer s = some (t, r)) : t = s := by
  simp only [service] at h
  cases h
  rfl

def Computed (empty : V) (apply : M → E → V → Except F V) (l : List (Step V M E W R)) :
    Act V M E X → Prop
  | .putIf m e current value =>
    apply m e (valueOf empty current) = .ok value ∧
      ∃ τ l0 s u, l = l0 ++ [⟨τ, .get, current, s, s⟩, ⟨τ, .moment, e, u, u⟩] ∧
        (current = none ∨ current = some s.doc)
  | _ => True

section Specs

variable {other : Nat → (x : X) → A → State V W → Option (State V W × R x)} {τ : Nat}
  {empty : V} {apply : M → E → V → Except F V}
  {P : List (Step V M E W R) → Act V M E X → Prop} {E' : F → List (Step V M E W R) → Prop}
  {l : List (Step V M E W R)} {α : Type} {Q : α → List (Step V M E W R) → Prop} {m : M}

theorem spec_get_bind {f : Option (Document V) → Program V M E F R α} (hP : P l .get)
    (h : ∀ current s, current = none ∨ current = some s.doc →
      Code.spec (service other) τ P Q E' (f current) (l ++ [⟨τ, .get, current, s, s⟩])) :
    Code.spec (service other) τ P Q E' (get >>= f) l := by
  refine ⟨hP, fun answer s t current hs => ?_⟩
  obtain ⟨rfl, hcurrent⟩ := serve_get hs
  exact h current t hcurrent

theorem spec_moment_bind {f : E → Program V M E F R α} (hP : P l .moment)
    (h : ∀ e s, Code.spec (service other) τ P Q E' (f e) (l ++ [⟨τ, .moment, e, s, s⟩])) :
    Code.spec (service other) τ P Q E' (moment >>= f) l := by
  refine ⟨hP, fun answer s t e hs => ?_⟩
  obtain rfl := serve_moment hs
  exact h e t

theorem spec_putIf_bind {e : E}
    {current : Option (Document V)} {value : V} {f : Option Bool → Program V M E F R α}
    (hP : P l (.putIf m e current value))
    (h : ∀ ok s t, Code.spec (service other) τ P Q E' (f ok)
      (l ++ [⟨τ, .putIf m e current value, ok, s, t⟩])) :
    Code.spec (service other) τ P Q E' (putIf m e current value >>= f) l :=
  ⟨hP, fun _ s t ok _ => h ok s t⟩

theorem spec_other_bind {x : X} {f : R x → Program V M E F R α} (hP : P l (.other x))
    (h : ∀ a s t r, other τ x a s = some (t, r) →
      Code.spec (service other) τ P Q E' (f r) (l ++ [⟨τ, .other x, r, s, t⟩])) :
    Code.spec (service other) τ P Q E' (Stores.other x >>= f) l :=
  ⟨hP, fun answer s t r hs => h answer.other s t r hs⟩

section Mutate

variable {Q : Option (Attempt V E) → List (Step V M E W R) → Prop}
  (K : List (Step V M E W R) → Prop)
  (hK : ∀ l x, K l → (∀ y, x.act ≠ .other y) → K (l ++ [x]))
  (hget : ∀ l, K l → P l .get) (hmoment : ∀ l, K l → P l .moment)
  (hput : ∀ l e current value, K l → Computed empty apply l (.putIf m e current value) →
    P l (.putIf m e current value))
  (hE : ∀ e l, K l → E' e l)
include hK hget hmoment hput hE

/-- One attempt, which ends the call or leads to the next one. -/
theorem spec_attempt (hl : K l) {n : Nat} (last : Option (Attempt V E))
    (h : ∀ a l1, K (l ++ l1) → (∃ x ∈ l1, ∃ e current value, x.act = .putIf m e current value) →
      Q a (l ++ l1) ∧ Code.spec (service other) τ P Q E' (kvMutate empty apply m n a) (l ++ l1)) :
    Code.spec (service other) τ P Q E' (kvMutate empty apply m (n + 1) last) l := by
  refine spec_get_bind (hget l hl) fun current s hcurrent => ?_
  have h1 : K (l ++ [⟨τ, .get, current, s, s⟩]) := hK _ _ hl (by simp)
  refine spec_moment_bind (hmoment _ h1) fun e u => ?_
  have h2 : K (l ++ [⟨τ, .get, current, s, s⟩] ++ [⟨τ, .moment, e, u, u⟩]) := hK _ _ h1 (by simp)
  cases happly : apply m e (valueOf empty current) with
  | error failure => exact hE failure _ h2
  | ok value =>
    refine spec_putIf_bind ?_ fun ok v w => ?_
    · refine hput _ e current value h2 ⟨happly, τ, l, s, u, ?_, hcurrent⟩
      rw [List.append_assoc]
      rfl
    · have h3 := hK _ ⟨τ, .putIf m e current value, ok, v, w⟩ h2 (by simp)
      simp only [List.append_assoc] at h3 ⊢
      obtain ⟨hend, hnext⟩ := h (some ⟨e, current⟩) _ h3
        ⟨⟨τ, .putIf m e current value, ok, v, w⟩, by simp, e, current, value, rfl⟩
      cases ok with
      | none => exact hend
      | some ok =>
        cases ok with
        | false => exact hnext
        | true => exact hend

/-- **What `kv_mutate` does**: every write it tries is computed from the read before it, and
whatever its accesses leave alone still holds when it ends. -/
theorem spec_kvMutate (hl : K l) (hQ : ∀ a l, K l → Q a l) (n : Nat)
    (last : Option (Attempt V E)) :
    Code.spec (service other) τ P Q E' (kvMutate empty apply m n last) l := by
  induction n generalizing l last with
  | zero => exact hQ last l hl
  | succ n ih =>
    exact spec_attempt K hK hget hmoment hput hE hl last
      fun a l1 h1 _ => ⟨hQ a _ h1, ih h1 a⟩

theorem spec_kvMutate_tried (hl : K l)
    (hQ : ∀ a l1, K (l ++ l1) → (∃ x ∈ l1, ∃ e current value, x.act = .putIf m e current value) →
      Q a (l ++ l1)) (n : Nat) (last : Option (Attempt V E)) :
    Code.spec (service other) τ P Q E' (kvMutate empty apply m (n + 1) last) l := by
  refine spec_attempt K hK hget hmoment hput hE hl last fun a l1 h1 htried =>
    ⟨hQ a l1 h1 htried, ?_⟩
  refine spec_kvMutate (fun l' => K l' ∧ ∃ l1, l' = l ++ l1 ∧ ∃ x ∈ l1, ∃ e current value,
    x.act = .putIf m e current value) ?_ (fun l h => hget l h.1) (fun l h => hmoment l h.1)
    (fun l e current value h => hput l e current value h.1) (fun e l h => hE e l h.1)
    ⟨h1, l1, rfl, htried⟩ ?_ n a
  · rintro l' x ⟨hl', l1, rfl, y, hy, hact⟩ hx
    exact ⟨hK _ x hl' hx, l1 ++ [x], List.append_assoc _ _ _, y, List.mem_append_left _ hy, hact⟩
  · rintro a l' ⟨hl', l1, rfl, htried⟩
    exact hQ a l1 hl' htried

end Mutate

end Specs

/-! ### What the writes are computed from -/

open List

variable {V M X E A F W Name ρ : Type} {R : X → Type}

/-- What an access does to the document: nothing, the change of a `kv_mutate` computed from the
document it replaces, or one that was computed from the empty value because its read failed. -/
inductive Written (empty : V) (apply : M → E → V → Except F V) (x : Step V M E W R) : Prop where
  | kept (doc : x.after.doc = x.before.doc)
  | changed (m : M) (e : E) (current : Option (Document V)) (value : V)
      (act : x.act = .putIf m e current value)
      (computed : apply m e x.before.doc.value = .ok x.after.doc.value)
      (rev : x.after.doc.rev = x.before.doc.rev + 1)
  | blind (m : M) (e : E) (value : V) (act : x.act = .putIf m e none value)
      (computed : apply m e empty = .ok x.after.doc.value)
      (rev : x.after.doc.rev = x.before.doc.rev + 1) (zero : x.before.doc.rev = 0)

/-- No write that was computed from a failed read meets a stored document of revision 0. -/
def Sighted (empty : V) (c : Clients (@Act.Reply V M X E R) Name F ρ (State V W))
    (move : Move Name (Answer E A)) : Prop :=
  match Service.action c move with
  | some (_, .putIf _ _ none _) => c.state.doc.rev ≠ 0 ∨ c.state.doc.value = empty
  | _ => True

def Uninterrupted (c : Clients (@Act.Reply V M X E R) Name F ρ (State V W))
    (move : Move Name (Answer E A)) : Prop :=
  match move with
  | .step τ _ => own τ c.trace = [] ∨ c.trace.getLast?.map Access.thread = some τ
  | _ => True

def uninterrupted (c : Clients (@Act.Reply V M X E R) Name F ρ (State V W))
    (move : Move Name (Answer E A)) : Bool :=
  match move with
  | .step τ _ => (own τ c.trace).isEmpty || c.trace.getLast?.map Access.thread == some τ
  | _ => true

theorem uninterrupted_iff {c : Clients (@Act.Reply V M X E R) Name F ρ (State V W)}
    {move : Move Name (Answer E A)} : uninterrupted c move = true ↔ Uninterrupted c move := by
  cases move with
  | start n | step τ answer => simp [uninterrupted, Uninterrupted]

/-- The clients leave the document to `kv_mutate` and `put`. -/
def LeavesDocument (other : Nat → (x : X) → A → State V W → Option (State V W × R x)) : Prop :=
  ∀ τ x a s t r, other τ x a s = some (t, r) → t.doc = s.doc

variable {other : Nat → (x : X) → A → State V W → Option (State V W × R x)} {empty : V}
  {apply : M → E → V → Except F V} {code : Name → Program V M E F R ρ}
  {start : State V W → Prop} {P : Name → List (Step V M E W R) → Act V M E X → Prop}
  {Q : Name → ρ → List (Step V M E W R) → Prop} {E' : Name → F → List (Step V M E W R) → Prop}
  {G : Clients (@Act.Reply V M X E R) Name F ρ (State V W) → Move Name (Answer E A) → Prop}
  {c : Clients (@Act.Reply V M X E R) Name F ρ (State V W)}

/-- A compare-and-set of what was computed from a read that failed, or that was of the stored
value if the revisions agree. -/
theorem written_putIf {τ : Nat} {m : M} {e : E} {current : Option (Document V)} {value : V}
    {answer : Answer E A} {s t : State V W} {r : Option Bool}
    (happly : apply m e (valueOf empty current) = .ok value)
    (hread : ∀ d, current = some d → s.doc.rev = d.rev → d.value = s.doc.value)
    (h : (service other).serve τ (.putIf m e current value) answer s = some (t, r)) :
    Written empty apply (⟨τ, .putIf m e current value, r, s, t⟩ : Step V M E W R) := by
  obtain ⟨-, hdoc | ⟨hrev, hdoc⟩⟩ := serve_putIf h
  · exact .kept hdoc
  have hnext : t.doc.rev = s.doc.rev + 1 := by rw [hdoc, hrev]
  have hvalue : t.doc.value = value := by rw [hdoc]
  cases current with
  | none => exact .blind m e value rfl (by rw [hvalue]; exact happly) hnext hrev
  | some d =>
    refine .changed m e (some d) value rfl ?_ hnext
    rw [hvalue, ← hread d rfl hrev]
    exact happly

/-- Where no failed read passes for a missing document, every change is computed from the
document it replaces. -/
theorem Written.computed {x : Step V M E W R} (h : Written empty apply x)
    (hs : ∀ m e value, x.act = .putIf m e none value → x.before.doc.rev = 0 →
      x.before.doc.value = empty) :
    x.after.doc = x.before.doc ∨ ∃ m e current value, x.act = .putIf m e current value ∧
      apply m e x.before.doc.value = .ok x.after.doc.value := by
  rcases h with hdoc | ⟨m, e, current, value, hact, happly, -⟩ | ⟨m, e, value, hact,
    happly, -, hzero⟩
  · exact .inl hdoc
  · exact .inr ⟨m, e, current, value, hact, happly⟩
  · exact .inr ⟨m, e, none, value, hact, by rw [hs m e value hact hzero]; exact happly⟩

theorem sighted_of_reaches
    (hcode : ∀ τ n, Code.spec (service other) τ (P n) (Q n) (E' n) (code n) [])
    (hG : ∀ c e, G c e → Sighted empty c e)
    (h : ((service other).machine code start).Reaches G c) :
    ∀ x ∈ c.trace, ∀ m e value, x.act = .putIf m e none value → x.before.doc.rev = 0 →
      x.before.doc.value = empty := by
  refine Service.trace_induction hcode (I := fun trace _ => ∀ x ∈ trace, ∀ m e value,
    x.act = .putIf m e none value → x.before.doc.rev = 0 → x.before.doc.value = empty) ?_ ?_ h
  · intro s _ x hx
    exact absurd hx not_mem_nil
  · intro c τ answer n a k t r _ hall hτ _ hGa _ x hx
    rcases mem_append.mp hx with hx | hx
    · exact hall x hx
    · rw [mem_singleton.mp hx]
      rintro m e value rfl hzero
      have hs := hG _ _ hGa
      simp only [Sighted, Service.action, hτ] at hs
      exact hs.resolve_left fun hne => hne hzero

def Revisions (trace : List (Step V M E W R)) (s : State V W) : Prop :=
  ∀ x ∈ trace, x.before.doc.rev ≤ s.doc.rev ∧
    (x.before.doc.rev = s.doc.rev → x.before.doc = s.doc)

theorem Revisions.snoc {trace : List (Step V M E W R)} {x : Step V M E W R}
    (h : Revisions trace x.before) (hx : Written empty apply x) :
    Revisions (trace ++ [x]) x.after := by
  intro y hy
  have hle : y.before.doc.rev ≤ x.before.doc.rev ∧
      (y.before.doc.rev = x.before.doc.rev → y.before.doc = x.before.doc) := by
    rcases mem_append.mp hy with hy | hy
    · exact h y hy
    · rw [mem_singleton.mp hy]
      exact ⟨Nat.le_refl _, fun _ => rfl⟩
  have hnext : x.after.doc.rev = x.before.doc.rev + 1 →
      y.before.doc.rev ≤ x.after.doc.rev ∧
        (y.before.doc.rev = x.after.doc.rev → y.before.doc = x.after.doc) := by
    intro hrev
    rw [hrev]
    exact ⟨Nat.le_succ_of_le hle.1, fun heq => by omega⟩
  rcases hx with hdoc | ⟨m, e, current, value, -, -, hrev⟩ | ⟨m, e, value, -, -, hrev, -⟩
  · rw [hdoc]
    exact hle
  · exact hnext hrev
  · exact hnext hrev

/-- **Without `put`, every write is computed from the document it replaces**, in every
interleaving, unless its read failed: a revision never comes back. -/
theorem written_of_revisions
    (hcode : ∀ τ n, Code.spec (service other) τ (P n) (Q n) (E' n) (code n) [])
    (hother : LeavesDocument other)
    (hP : ∀ n l a, P n l a → Computed empty apply l a ∧ ∀ v, a ≠ .put v)
    (h : ((service other).machine code start).Reaches G c) :
    Revisions c.trace c.state ∧ ∀ x ∈ c.trace, Written empty apply x := by
  refine Service.trace_induction hcode
    (I := fun trace s => Revisions trace s ∧ ∀ x ∈ trace, Written empty apply x) ?_ ?_ h
  · intro s _
    exact ⟨fun x hx => absurd hx not_mem_nil, fun x hx => absurd hx not_mem_nil⟩
  · intro c τ answer n a k t r _ ⟨hrev, hall⟩ _ hPa _ hserve
    have hx : Written empty apply (⟨τ, a, r, c.state, t⟩ : Step V M E W R) := by
      cases a with
      | get => exact .kept (congrArg State.doc (serve_get hserve).1)
      | moment => exact .kept (congrArg State.doc (serve_moment hserve))
      | put v => exact absurd rfl ((hP n _ _ hPa).2 v)
      | other x => exact .kept (hother τ x _ _ _ _ hserve)
      | putIf m e current value =>
        obtain ⟨happly, τ', l0, s, u, hl, hcurrent⟩ := (hP n _ _ hPa).1
        refine written_putIf happly ?_ hserve
        rintro d rfl heq
        obtain rfl := Option.some.inj (hcurrent.resolve_left (by simp))
        have hmem : (⟨τ', .get, some s.doc, s, s⟩ : Step V M E W R) ∈ own τ c.trace := by
          rw [hl]
          simp
        have hsame := (hrev _ (mem_own.mp hmem).1).2 heq.symm
        exact congrArg Document.value hsame
    refine ⟨hrev.snoc hx, ?_⟩
    intro y hy
    rcases mem_append.mp hy with hy | hy
    · exact hall y hy
    · rw [mem_singleton.mp hy]
      exact hx

def Seamless (l : List (Step V M E W R)) : Prop := l.IsChain fun x y => x.after = y.before

theorem getLast?_own {τ : Nat} {trace : List (Step V M E W R)}
    (h : trace.getLast?.map Access.thread = some τ) : (own τ trace).getLast? = trace.getLast? := by
  obtain ⟨x, hx, hthread⟩ := Option.map_eq_some_iff.mp h
  obtain ⟨l, rfl⟩ := getLast?_eq_some_iff.mp hx
  rw [own_append, if_pos hthread]
  simp

/-- **Without interruptions, every write of `kv_mutate` is computed from the document it
replaces**, unless its read failed, and whatever `put` does to the revision.  What a client
did follows on without a gap. -/
theorem written_of_uninterrupted
    (hcode : ∀ τ n, Code.spec (service other) τ (P n) (Q n) (E' n) (code n) [])
    (hother : LeavesDocument other) (hP : ∀ n l a, P n l a → Computed empty apply l a)
    (hG : ∀ c e, G c e → Uninterrupted c e)
    (h : ((service other).machine code start).Reaches G c) :
    (∀ τ, Seamless (own τ c.trace)) ∧ (∀ x, c.trace.getLast? = some x → x.after = c.state) ∧
      ∀ x ∈ c.trace, (∀ v, x.act ≠ .put v) → Written empty apply x := by
  refine Service.trace_induction hcode (I := fun trace s => (∀ τ, Seamless (own τ trace)) ∧
    (∀ x, trace.getLast? = some x → x.after = s) ∧
    ∀ x ∈ trace, (∀ v, x.act ≠ .put v) → Written empty apply x) ?_ ?_ h
  · intro s _
    exact ⟨fun τ => isChain_nil, fun x hx => absurd hx (by simp),
      fun x hx => absurd hx not_mem_nil⟩
  · intro c τ answer n a k t r _ ⟨hseam, hlast, hall⟩ _ hPa hGa hserve
    have hunint := hG _ _ hGa
    have hown : ∀ x, (own τ c.trace).getLast? = some x → x.after = c.state := by
      intro x hx
      rcases hunint with hnone | hthread
      · rw [hnone] at hx
        cases hx
      · rw [getLast?_own hthread] at hx
        exact hlast x hx
    have hchain : Seamless (own τ (c.trace ++ [⟨τ, a, r, c.state, t⟩])) := by
      rw [own_append, if_pos rfl]
      refine isChain_append.mpr ⟨hseam τ, isChain_singleton _, ?_⟩
      intro x hx y hy
      rw [head?_cons, Option.mem_some_iff] at hy
      rw [← hy]
      exact hown x hx
    refine ⟨?_, ?_, ?_⟩
    · intro τ'
      by_cases hsame : τ' = τ
      · rw [hsame]
        exact hchain
      · rw [own_append, if_neg fun heq => hsame heq.symm, append_nil]
        exact hseam τ'
    · intro x hx
      rw [getLast?_concat, Option.some.injEq] at hx
      rw [← hx]
    · intro y hy hput
      rcases mem_append.mp hy with hy | hy
      · exact hall y hy hput
      rw [mem_singleton.mp hy] at hput ⊢
      cases a with
      | get => exact .kept (congrArg State.doc (serve_get hserve).1)
      | moment => exact .kept (congrArg State.doc (serve_moment hserve))
      | put v => exact absurd rfl (hput v)
      | other x => exact .kept (hother τ x _ _ _ _ hserve)
      | putIf m e current value =>
        obtain ⟨happly, τ', l0, s, u, hl, hcurrent⟩ := hP n _ _ hPa
        refine written_putIf happly ?_ hserve
        rintro d rfl _
        obtain rfl := Option.some.inj (hcurrent.resolve_left (by simp))
        -- the read, the clock and the write follow one another
        have hread : s = u := by
          have hpair := hseam τ
          rw [hl] at hpair
          exact (isChain_append_cons_cons.mp hpair).2.1
        have hclock : u = c.state := hown ⟨τ', .moment, e, u, u⟩ (by rw [hl]; simp)
        rw [hread, hclock]

end AgenticKibana.Stores
