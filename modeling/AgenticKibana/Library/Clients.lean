import AgenticKibana.Library.Threads
import Mathlib.Logic.Hydra

/-!
# Clients of one service, and the trace of what they did

A `Service` answers atomic actions on a shared state; any number of clients, each running a
`Code`, use it at the same time.  The trace keeps every access with its answer and the state
before and after it.  `Code.spec` says what holds of a client's own accesses; `kept_of_reaches`
carries this to interleaved clients, and `trace_induction` is the induction over what they did
together.

Any number of clients take only finitely many steps together, and with a service that never makes
all of them wait, each run can be continued until every client has ended.
-/

namespace AgenticKibana.Library

open List

namespace Code

variable {Act : Type} {Reply : Act → Type} {ε α : Type}

instance : Monad (Code Reply ε) where
  pure := ret
  bind m f := m.andThen f raise

def perform (a : Act) : Code Reply ε (Reply a) := .act a .ret

/-- `try m; except e: h e`. -/
def orElse (m : Code Reply ε α) (h : ε → Code Reply ε α) : Code Reply ε α := m.andThen .ret h

/-- `m` if `p`, nothing otherwise. -/
def when (p : Bool) (m : Code Reply ε Unit) : Code Reply ε Unit := if p then m else .ret ()

end Code

/-- The meaning of the actions: `serve τ a answer s` is action `a` of client `τ` in
state `s`, `none` while it has to wait.  What `s` does not determine (faults, the
clock, fresh values) is in `answer`. -/
structure Service {Act : Type} (Reply : Act → Type) (Answer σ : Type) where
  serve : Nat → (a : Act) → Answer → σ → Option (σ × Reply a)

structure Access {Act : Type} (Reply : Act → Type) (σ : Type) where
  thread : Nat
  act : Act
  reply : Reply act
  before : σ
  after : σ

variable {Act : Type} {Reply : Act → Type} {Name ε α β ρ Answer σ : Type}

/-- What client `τ` did. -/
def own (τ : Nat) (trace : List (Access Reply σ)) : List (Access Reply σ) :=
  trace.filter fun x => x.thread == τ

@[simp] theorem own_nil (τ : Nat) : own τ ([] : List (Access Reply σ)) = [] := rfl

theorem own_append (τ : Nat) (trace : List (Access Reply σ)) (x : Access Reply σ) :
    own τ (trace ++ [x]) = own τ trace ++ if x.thread = τ then [x] else [] := by
  by_cases h : x.thread = τ
  · simp [own, h]
  · simp [own, h]

variable {τ : Nat} {trace : List (Access Reply σ)} {x : Access Reply σ}

theorem mem_own : x ∈ own τ trace ↔ x ∈ trace ∧ x.thread = τ := by
  simp [own, mem_filter]

theorem own_eq_append_cons {l m : List (Access Reply σ)} (h : own τ trace = l ++ x :: m) :
    ∃ a b, trace = a ++ x :: b ∧ own τ a = l ∧ own τ b = m := by
  obtain ⟨a, b, rfl, ha, hb⟩ := filter_eq_append_iff.mp h
  obtain ⟨b1, b2, rfl, hnone, -, hb2⟩ := filter_eq_cons_iff.mp hb
  refine ⟨a ++ b1, b2, by rw [append_assoc], ?_, hb2⟩
  have hskip : b1.filter (fun y => y.thread == τ) = [] := filter_eq_nil_iff.mpr hnone
  unfold own
  rw [filter_append, ha, hskip, append_nil]

theorem split_concat {l m : List (Access Reply σ)} {z : Access Reply σ}
    (h : trace ++ [z] = l ++ x :: m) :
    (x = z ∧ m = []) ∨ ∃ m', m = m' ++ [z] ∧ trace = l ++ x :: m' := by
  rcases eq_nil_or_concat' m with rfl | ⟨m, y, rfl⟩
  · obtain ⟨-, hx⟩ := append_inj' h rfl
    cases hx
    exact .inl ⟨rfl, rfl⟩
  · rw [← List.cons_append, ← append_assoc] at h
    obtain ⟨hl, hy⟩ := append_inj' h rfl
    cases hy
    exact .inr ⟨m, rfl, hl⟩

section Spec

variable (S : Service Reply Answer σ) (τ : Nat)

/-- What holds of the accesses of a program that is run by client `τ` after the accesses `l`:
`P` when it performs an action, `Q` when it returns, `E` when it raises. -/
def Code.spec (P : List (Access Reply σ) → Act → Prop) (Q : α → List (Access Reply σ) → Prop)
    (E : ε → List (Access Reply σ) → Prop) : Code Reply ε α → List (Access Reply σ) → Prop
  | .ret a, l => Q a l
  | .raise e, l => E e l
  | .act a k, l => P l a ∧ ∀ answer s t r, S.serve τ a answer s = some (t, r) →
      Code.spec P Q E (k r) (l ++ [⟨τ, a, r, s, t⟩])

variable {S τ} {P : List (Access Reply σ) → Act → Prop} {Q : α → List (Access Reply σ) → Prop}
  {E : ε → List (Access Reply σ) → Prop} {l : List (Access Reply σ)} {a : Act}

theorem spec_perform {Q : Reply a → List (Access Reply σ) → Prop} (hP : P l a)
    (h : ∀ answer s t r, S.serve τ a answer s = some (t, r) → Q r (l ++ [⟨τ, a, r, s, t⟩])) :
    Code.spec S τ P Q E (Code.perform a) l :=
  ⟨hP, h⟩

variable {m : Code Reply ε α}

theorem spec_mono {Q' : α → List (Access Reply σ) → Prop} {E' : ε → List (Access Reply σ) → Prop}
    (h : Code.spec S τ P Q E m l) (hQ : ∀ a l, Q a l → Q' a l)
    (hE : ∀ e l, E e l → E' e l) : Code.spec S τ P Q' E' m l := by
  induction m generalizing l with
  | ret a => exact hQ a l h
  | raise e => exact hE e l h
  | act a k ih => exact ⟨h.1, fun answer s t r hr => ih r (h.2 answer s t r hr)⟩

theorem spec_andThen {ε' : Type} {Q : β → List (Access Reply σ) → Prop}
    {E : ε' → List (Access Reply σ) → Prop} {f : α → Code Reply ε' β}
    {g : ε → Code Reply ε' β}
    (h : Code.spec S τ P (fun a => Code.spec S τ P Q E (f a)) (fun e => Code.spec S τ P Q E (g e))
      m l) : Code.spec S τ P Q E (m.andThen f g) l := by
  induction m generalizing l with
  | ret a | raise e => exact h
  | act a k ih => exact ⟨h.1, fun answer s t r hr => ih r (h.2 answer s t r hr)⟩

theorem spec_bind {Q : β → List (Access Reply σ) → Prop} {f : α → Code Reply ε β}
    (h : Code.spec S τ P (fun a => Code.spec S τ P Q E (f a)) E m l) :
    Code.spec S τ P Q E (m >>= f) l :=
  spec_andThen h

theorem spec_perform_bind {Q : β → List (Access Reply σ) → Prop} {f : Reply a → Code Reply ε β}
    (hP : P l a) (h : ∀ answer s t r, S.serve τ a answer s = some (t, r) →
      Code.spec S τ P Q E (f r) (l ++ [⟨τ, a, r, s, t⟩])) :
    Code.spec S τ P Q E (Code.perform a >>= f) l :=
  spec_bind (spec_perform hP h)

theorem spec_orElse {h : ε → Code Reply ε α}
    (hm : Code.spec S τ P Q (fun e => Code.spec S τ P Q E (h e)) m l) :
    Code.spec S τ P Q E (m.orElse h) l :=
  spec_andThen hm

theorem spec_when {p : Bool} {Q : Unit → List (Access Reply σ) → Prop} {m : Code Reply ε Unit}
    (hm : p = true → Code.spec S τ P Q E m l) (hskip : p = false → Q () l) :
    Code.spec S τ P Q E (Code.when p m) l := by
  cases p with
  | true => exact hm rfl
  | false => exact hskip rfl

end Spec

/-! ### Any number of clients -/

structure Clients {Act : Type} (Reply : Act → Type) (Name ε ρ σ : Type) where
  state : σ
  clients : List (Name × Code Reply ε ρ)
  trace : List (Access Reply σ)

inductive Move (Name Answer : Type) where
  | start (n : Name)
  | step (τ : Nat) (answer : Answer)

namespace Service

variable (S : Service Reply Answer σ) (code : Name → Code Reply ε ρ)

def step (c : Clients Reply Name ε ρ σ) : Move Name Answer → Option (Clients Reply Name ε ρ σ)
  | .start n => some { c with clients := c.clients ++ [(n, code n)] }
  | .step τ answer =>
    match c.clients[τ]? with
    | some (n, .act a k) =>
      match S.serve τ a answer c.state with
      | none => none
      | some (t, r) =>
        some ⟨t, c.clients.set τ (n, k r), c.trace ++ [⟨τ, a, r, c.state, t⟩]⟩
    | _ => none

def machine (start : σ → Prop) : Machine (Clients Reply Name ε ρ σ) (Move Name Answer) where
  start c := start c.state ∧ c.clients = [] ∧ c.trace = []
  step := S.step code

def action (c : Clients Reply Name ε ρ σ) : Move Name Answer → Option (Nat × Act)
  | .start _ => none
  | .step τ _ =>
    match c.clients[τ]? with
    | some (_, .act a _) => some (τ, a)
    | _ => none

variable {S code} {c : Clients Reply Name ε ρ σ}
  {G : Clients Reply Name ε ρ σ → Move Name Answer → Prop} {d : Clients Reply Name ε ρ σ}
  {e : Move Name Answer}

theorem step_cases (h : S.step code c e = some d) :
    (∃ n, e = .start n ∧ d = { c with clients := c.clients ++ [(n, code n)] }) ∨
    ∃ τ answer n a k t r, e = .step τ answer ∧ c.clients[τ]? = some (n, .act a k) ∧
      S.serve τ a answer c.state = some (t, r) ∧
      d = ⟨t, c.clients.set τ (n, k r), c.trace ++ [⟨τ, a, r, c.state, t⟩]⟩ := by
  cases e with
  | start n =>
    simp only [step, Option.some.injEq] at h
    exact .inl ⟨n, rfl, h.symm⟩
  | step τ answer =>
    simp only [step] at h
    split at h
    · rename_i n a k hτ
      split at h
      · cases h
      · rename_i t r hserve
        simp only [Option.some.injEq] at h
        exact .inr ⟨τ, answer, n, a, k, t, r, rfl, hτ, hserve, h.symm⟩
    · cases h

structure Kept (S : Service Reply Answer σ)
    (P : Name → List (Access Reply σ) → Act → Prop) (Q : Name → ρ → List (Access Reply σ) → Prop)
    (E : Name → ε → List (Access Reply σ) → Prop) (c : Clients Reply Name ε ρ σ) : Prop where
  bound : ∀ x ∈ c.trace, x.thread < c.clients.length
  spec : ∀ τ n m, c.clients[τ]? = some (n, m) →
    Code.spec S τ (P n) (Q n) (E n) m (own τ c.trace)

variable {P : Name → List (Access Reply σ) → Act → Prop}
  {Q : Name → ρ → List (Access Reply σ) → Prop} {E : Name → ε → List (Access Reply σ) → Prop}

variable (hcode : ∀ τ n, Code.spec S τ (P n) (Q n) (E n) (code n) [])

include hcode

theorem kept_step (hc : Kept S P Q E c) (h : S.step code c e = some d) : Kept S P Q E d := by
  rcases step_cases h with ⟨n, rfl, rfl⟩ | ⟨τ, answer, n, a, k, t, r, rfl, hτ, hserve, rfl⟩
  · refine ⟨?_, ?_⟩
    · intro x hx
      have hlt := hc.bound x hx
      simp only [length_append, length_singleton]
      omega
    · intro i m code' hi
      rcases Nat.lt_trichotomy i c.clients.length with hlt | heq | hgt
      · rw [List.getElem?_append_left hlt] at hi
        exact hc.spec i m code' hi
      · subst heq
        simp only [List.getElem?_concat_length, Option.some.injEq, Prod.mk.injEq] at hi
        obtain ⟨rfl, rfl⟩ := hi
        have hnone : own c.clients.length c.trace = [] := by
          apply filter_eq_nil_iff.mpr
          intro x hx
          have hlt := hc.bound x hx
          simp only [beq_iff_eq]
          omega
        rw [hnone]
        exact hcode _ n
      · rw [List.getElem?_eq_none (by simp only [length_append, length_singleton]; omega)]
          at hi
        cases hi
  · have hlt := Threads.lt_of_getElem? hτ
    refine ⟨?_, ?_⟩
    · intro x hx
      simp only [length_set]
      rcases mem_append.mp hx with hx | hx
      · exact hc.bound x hx
      · rw [mem_singleton.mp hx]
        exact hlt
    · intro i m code' hi
      by_cases hsame : i = τ
      · subst hsame
        rw [List.getElem?_set_self hlt, Option.some.injEq, Prod.mk.injEq] at hi
        obtain ⟨rfl, rfl⟩ := hi
        rw [own_append, if_pos rfl]
        exact (hc.spec i n _ hτ).2 answer c.state t r hserve
      · rw [List.getElem?_set_ne (Ne.symm hsame)] at hi
        rw [own_append, if_neg (Ne.symm hsame), append_nil]
        exact hc.spec i m code' hi

variable {start : σ → Prop}

/-- **Programs verified one at a time keep their specifications together**, whatever the
others do between their accesses. -/
theorem kept_of_reaches (h : (S.machine code start).Reaches G c) : Kept S P Q E c := by
  refine Machine.invariant (I := Kept S P Q E) ?_ ?_ h
  · rintro c ⟨-, hclients, htrace⟩
    exact ⟨by simp [htrace], by simp [hclients]⟩
  · intro c e d hc _ hstep
    exact kept_step hcode hc hstep

omit hcode in
theorem names_of_reaches {N : Name → Prop} (hG : ∀ c n, G c (.start n) → N n)
    (h : (S.machine code start).Reaches G c) : ∀ p ∈ c.clients, N p.1 := by
  refine Machine.invariant (I := fun c => ∀ p ∈ c.clients, N p.1) ?_ ?_ h
  · rintro c ⟨-, hclients, -⟩ p hp
    rw [hclients] at hp
    cases hp
  · intro c e d hc he hd p hp
    rcases step_cases hd with ⟨n, rfl, rfl⟩ | ⟨τ, answer, n, a, k, t, r, rfl, hτ, -, rfl⟩
    · rcases mem_append.mp hp with hp | hp
      · exact hc p hp
      · rw [mem_singleton.mp hp]
        exact hG c n he
    · rcases mem_or_eq_of_mem_set hp with hp | rfl
      · exact hc p hp
      · exact hc (n, .act a k) (mem_of_getElem? hτ)

theorem known_of_reaches (h : (S.machine code start).Reaches G c) :
    ∀ x ∈ c.trace, ∃ n m l, c.clients[x.thread]? = some (n, m) ∧ P n l x.act := by
  refine Machine.reaches_induction (I := fun c => ∀ x ∈ c.trace, ∃ n m l,
    c.clients[x.thread]? = some (n, m) ∧ P n l x.act) ?_ ?_ h
  · rintro c ⟨-, -, htrace⟩ x hx
    rw [htrace] at hx
    cases hx
  · intro c e d hc hI _ hd x hx
    rcases step_cases hd with ⟨n, rfl, rfl⟩ | ⟨τ, answer, n, a, k, t, r, rfl, hτ, -, rfl⟩
    · obtain ⟨n', m, l, hn', hP⟩ := hI x hx
      refine ⟨n', m, l, ?_, hP⟩
      rw [List.getElem?_append_left (Threads.lt_of_getElem? hn')]
      exact hn'
    · have hlt := Threads.lt_of_getElem? hτ
      rcases mem_append.mp hx with hx | hx
      · obtain ⟨n', m, l, hn', hP⟩ := hI x hx
        by_cases hsame : x.thread = τ
        · rw [hsame, hτ] at hn'
          cases hn'
          exact ⟨n, k r, l, by rw [hsame, List.getElem?_set_self hlt], hP⟩
        · exact ⟨n', m, l, by rw [List.getElem?_set_ne (Ne.symm hsame)]; exact hn', hP⟩
      · rw [mem_singleton.mp hx]
        exact ⟨n, k r, _, List.getElem?_set_self hlt,
          ((kept_of_reaches hcode hc).spec τ n _ hτ).1⟩

omit hcode in
theorem access_of_reaches (h : (S.machine code start).Reaches G c) {l m : List (Access Reply σ)}
    (htrace : c.trace = l ++ x :: m) :
    ∃ d answer n k, (S.machine code start).Reaches G d ∧ d.trace = l ∧ d.state = x.before ∧
      G d (.step x.thread answer) ∧ d.clients[x.thread]? = some (n, .act x.act k) ∧
      S.serve x.thread x.act answer x.before = some (x.after, x.reply) := by
  have hall : ∀ l x m, c.trace = l ++ x :: m → ∃ d answer n k, (S.machine code start).Reaches G d ∧
      d.trace = l ∧ d.state = x.before ∧ G d (.step x.thread answer) ∧
      d.clients[x.thread]? = some (n, .act x.act k) ∧
      S.serve x.thread x.act answer x.before = some (x.after, x.reply) := by
    refine Machine.reaches_induction (I := fun c => ∀ l x m, c.trace = l ++ x :: m →
      ∃ d answer n k, (S.machine code start).Reaches G d ∧ d.trace = l ∧ d.state = x.before ∧
        G d (.step x.thread answer) ∧ d.clients[x.thread]? = some (n, .act x.act k) ∧
        S.serve x.thread x.act answer x.before = some (x.after, x.reply)) ?_ ?_ h
    · rintro c ⟨-, -, htrace⟩ l x m hsplit
      rw [htrace] at hsplit
      exact absurd hsplit (by simp)
    · intro c e d hc hI hG hd l x m hsplit
      rcases step_cases hd with ⟨n, rfl, rfl⟩ | ⟨τ, answer, n, a, k, t, r, rfl, hτ, hserve, rfl⟩
      · exact hI l x m hsplit
      · rcases eq_nil_or_concat' m with rfl | ⟨m', y, rfl⟩
        · obtain ⟨hl, hx⟩ := append_inj' hsplit rfl
          cases hx
          exact ⟨c, answer, n, k, hc, hl, rfl, hG, hτ, hserve⟩
        · rw [← List.cons_append, ← append_assoc] at hsplit
          exact hI l x m' (append_inj' hsplit rfl).1
  exact hall l x m htrace

/-- **Induction over what the clients did.**  A property of the trace and the state holds after a
run when it holds at the start and every access keeps it. -/
theorem trace_induction {I : List (Access Reply σ) → σ → Prop} (hstart : ∀ s, start s → I [] s)
    (hstep : ∀ (c : Clients Reply Name ε ρ σ) τ answer n a k t r,
      (S.machine code start).Reaches G c → I c.trace c.state →
      c.clients[τ]? = some (n, .act a k) → P n (own τ c.trace) a → G c (.step τ answer) →
      S.serve τ a answer c.state = some (t, r) → I (c.trace ++ [⟨τ, a, r, c.state, t⟩]) t)
    (h : (S.machine code start).Reaches G c) : I c.trace c.state := by
  refine Machine.reaches_induction (I := fun c => I c.trace c.state) ?_ ?_ h
  · rintro c ⟨hs, -, htrace⟩
    rw [htrace]
    exact hstart _ hs
  · intro c e d hc hI hG hd
    rcases step_cases hd with ⟨n, rfl, rfl⟩ | ⟨τ, answer, n, a, k, t, r, rfl, hτ, hserve, rfl⟩
    · exact hI
    · have hspec := (kept_of_reaches hcode hc).spec τ n _ hτ
      exact hstep c τ answer n a k t r hc hI hτ hspec.1 hG hserve

end Service

/-! ### Clients finish -/

variable {Act : Type} {Reply : Act → Type} {Name ε α ρ Answer σ : Type}

namespace Code

/-- What is left of a program after its next action. -/
def After (m' m : Code Reply ε α) : Prop := ∃ a k r, m = .act a k ∧ m' = k r

def ended : Code Reply ε α → Bool
  | .ret _ => true
  | .raise _ => true
  | .act _ _ => false

theorem after_wellFounded : WellFounded fun m' m : Code Reply ε α => m'.After m := by
  constructor
  intro m
  induction m with
  | ret a | raise e =>
    constructor
    rintro _ ⟨a', k, r, h, -⟩
    cases h
  | act a k ih =>
    constructor
    rintro _ ⟨a', k', r, h, rfl⟩
    cases h
    exact ih r

end Code

namespace Service

variable (S : Service Reply Answer σ) (code : Name → Code Reply ε ρ)

def left (c : Clients Reply Name ε ρ σ) : Multiset (Code Reply ε ρ) :=
  ((c.clients.map Prod.snd : List (Code Reply ε ρ)) : Multiset (Code Reply ε ρ))

def Steps (d c : Clients Reply Name ε ρ σ) : Prop :=
  ∃ τ answer, S.step code c (.step τ answer) = some d

variable {S code} {c : Clients Reply Name ε ρ σ}

theorem cutExpand_of_steps {d : Clients Reply Name ε ρ σ} (h : S.Steps code d c) :
    Relation.CutExpand Code.After (left d) (left c) := by
  obtain ⟨τ, answer, hstep⟩ := h
  rcases step_cases hstep with ⟨n, hmove, -⟩ | ⟨i, ans, n, a, k, t, r, hmove, hτ, -, rfl⟩
  · cases hmove
  · obtain ⟨before, after, hsplit, hlength⟩ : ∃ before after,
        c.clients = before ++ (n, .act a k) :: after ∧ before.length = i := by
      refine ⟨c.clients.take i, c.clients.drop (i + 1), ?_, ?_⟩
      · obtain ⟨hlt, hget⟩ := List.getElem?_eq_some_iff.mp hτ
        rw [← hget, List.getElem_cons_drop, take_append_drop]
      · obtain ⟨hlt, -⟩ := List.getElem?_eq_some_iff.mp hτ
        rw [length_take]
        omega
    refine ⟨{k r}, .act a k, ?_, ?_⟩
    · intro m hm
      rw [Multiset.mem_singleton.mp hm]
      exact ⟨a, k, r, rfl, rfl⟩
    · simp only [left, hsplit, ← hlength, set_append_right _ _ (le_refl _), Nat.sub_self,
        set_cons_zero, map_append, map_cons, ← Multiset.coe_add, ← Multiset.cons_coe]
      rw [Multiset.add_cons, Multiset.add_cons, ← Multiset.singleton_add (k r),
        ← Multiset.singleton_add (Code.act a k), add_comm, add_comm {k r}]
      simp only [add_assoc]

/-- **Clients take only finitely many steps**, as long as none is added. -/
theorem steps_wellFounded : WellFounded (S.Steps code) :=
  Subrelation.wf cutExpand_of_steps (InvImage.wf left Code.after_wellFounded.cutExpand)

/-- **Every run can be finished**, where some client can go on as long as one has not ended. -/
theorem exists_finished {start : σ → Prop}
    {G : Clients Reply Name ε ρ σ → Move Name Answer → Prop}
    (hG : ∀ c τ answer, G c (.step τ answer))
    (hmoves : ∀ c, (S.machine code start).Reaches G c → (∃ p ∈ c.clients, p.2.ended = false) →
      ∃ d, S.Steps code d c) (h : (S.machine code start).Reaches G c) :
    ∃ moves d, (S.machine code start).run c moves = some d ∧ ∀ p ∈ d.clients, p.2.ended = true := by
  induction c using steps_wellFounded.induction (r := S.Steps code) with
  | _ c ih =>
    by_cases hended : ∃ p ∈ c.clients, p.2.ended = false
    · obtain ⟨d, τ, answer, hstep⟩ := hmoves c h hended
      obtain ⟨moves, e, hrun, hall⟩ := ih d ⟨τ, answer, hstep⟩ (h.step (hG c τ answer) hstep)
      exact ⟨.step τ answer :: moves, e, Machine.run_cons.mpr ⟨d, hstep, hrun⟩, hall⟩
    · refine ⟨[], c, rfl, fun p hp => ?_⟩
      by_contra hne
      exact hended ⟨p, hp, by simpa using hne⟩

end Service

theorem sum_range_single (i k n : Nat) :
    ((List.range n).map fun τ => if i = τ then k else 0).sum = if i < n then k else 0 := by
  induction n with
  | zero => simp
  | succ n ih =>
    rw [List.range_succ, map_append, sum_append, ih]
    by_cases heq : i = n
    · simp [heq]
    · have hiff : i < n + 1 ↔ i < n := by omega
      simp [heq, hiff]

variable {trace : List (Access Reply σ)}

theorem countP_eq_sum_own (p : Access Reply σ → Bool) {n : Nat} (h : ∀ x ∈ trace, x.thread < n) :
    trace.countP p = ((List.range n).map fun τ => (own τ trace).countP p).sum := by
  induction trace with
  | nil => simp
  | cons x trace ih =>
    have hrest := ih fun y hy => h y (mem_cons_of_mem x hy)
    have hown : ∀ τ, (own τ (x :: trace)).countP p =
        (own τ trace).countP p + if x.thread = τ then (if p x then 1 else 0) else 0 := by
      intro τ
      by_cases heq : x.thread = τ <;> by_cases hp : p x = true <;> simp [own, heq, hp]
    have hone : ((List.range n).map fun τ =>
        if x.thread = τ then (if p x then 1 else 0) else 0).sum = if p x then 1 else 0 := by
      rw [sum_range_single, if_pos (h x mem_cons_self)]
    simp only [hown, sum_map_add, hone, countP_cons, hrest]

theorem countP_le_of_own {p q : Access Reply σ → Bool}
    (h : ∀ τ, (own τ trace).countP p ≤ (own τ trace).countP q) :
    trace.countP p ≤ trace.countP q := by
  obtain ⟨n, hn⟩ : ∃ n, ∀ x ∈ trace, x.thread < n := by
    refine ⟨(trace.map Access.thread).sum + 1, fun x hx => ?_⟩
    have := single_le_sum (l := trace.map Access.thread) (by simp) x.thread
      (List.mem_map_of_mem hx)
    omega
  rw [countP_eq_sum_own p hn, countP_eq_sum_own q hn]
  exact sum_le_sum fun τ _ => h τ

end AgenticKibana.Library
