import AgenticKibana.Library.Machine

/-!
# Programs made of atomic actions, and rely–guarantee reasoning about threads

A `Code` performs one atomic action at a time and ends by returning or by raising; a `Routine`
also keeps local variables, which survive an exception.  A `Threads` gives the actions their
meaning on a shared state and runs any number of such programs, one action of one of them at a
time.

A thread is verified once, against what the others may do (`Rely`) and for what it owes them, with
the weakest precondition `wp`; `safe_of_reaches` carries this to every interleaving of a pool of
threads.
-/

namespace AgenticKibana.Library

/-! ### Programs -/

/-- Code that performs actions of `Act`, each answered by a `Reply`; it returns
an `α` or raises an `ε`. -/
inductive Code {Act : Type} (Reply : Act → Type) (ε α : Type) : Type where
  | ret (a : α)
  | raise (e : ε)
  | act (a : Act) (k : Reply a → Code Reply ε α)

namespace Code

variable {Act : Type} {Reply : Act → Type} {ε α β : Type}

/-- Go on with `f` after a return and with `g` after an exception. -/
def andThen {ε' : Type} : Code Reply ε α → (α → Code Reply ε' β) → (ε → Code Reply ε' β) →
    Code Reply ε' β
  | ret a, f, _ => f a
  | raise e, _, g => g e
  | act a k, f, g => act a fun r => (k r).andThen f g

end Code

/-- Code with local variables `L`; an exception carries their values. -/
def Routine {Act : Type} (Reply : Act → Type) (ε L α : Type) : Type :=
  L → Code Reply (ε × L) (α × L)

namespace Routine

variable {Act : Type} {Reply : Act → Type} {ε L α : Type}

instance : Monad (Routine Reply ε L) where
  pure a := fun l => .ret (a, l)
  bind m f := fun l => (m l).andThen (fun (a, l) => f a l) .raise

def perform (a : Act) : Routine Reply ε L (Reply a) := fun l => .act a fun r => .ret (r, l)

def raise (e : ε) : Routine Reply ε L α := fun l => .raise (e, l)

def get : Routine Reply ε L L := fun l => .ret (l, l)

def modify (f : L → L) : Routine Reply ε L Unit := fun l => .ret ((), f l)

/-- `try m; except e: h e`. -/
def orElse (m : Routine Reply ε L α) (h : ε → Routine Reply ε L α) : Routine Reply ε L α :=
  fun l => (m l).andThen .ret fun (e, l) => h e l

/-- `try m; finally: c`: an exception of `c` replaces whatever `m` did. -/
def andFinally (m : Routine Reply ε L α) (c : Routine Reply ε L Unit) : Routine Reply ε L α :=
  fun l => (m l).andThen (fun (a, l) => (c l).andThen (fun (_, l) => .ret (a, l)) .raise)
    fun (e, l) => (c l).andThen (fun (_, l) => .raise (e, l)) .raise

/-- `m` if `p`, nothing otherwise. -/
def when (p : Bool) (m : Routine Reply ε L Unit) : Routine Reply ε L Unit :=
  if p then m else pure ()

/-- An `except` clause's value: raise what was an error. -/
def ofExcept : Except ε α → Routine Reply ε L α
  | .ok a => pure a
  | .error e => raise e

/-- A routine as the whole program of a thread: it starts with the local variables `l`
and ends with `f` of what it returns. -/
def main {ρ : Type} (m : Routine Reply ε L α) (l : L) (f : α → ρ) : Code Reply ε ρ :=
  (m l).andThen (fun (a, _) => .ret (f a)) fun (e, _) => .raise e

end Routine

/-! ### Threads over a shared state -/

/-- The meaning of the actions on a shared state `σ`, and what else happens to it.

* `code` is the program a thread of a given name runs;
* `perform τ fresh a answer s` is action `a` of thread `τ`: the new state, the reply
  and the threads it starts (the first gets the number `fresh`), `none` while the
  action has to wait;
* `retire` is what a thread leaves behind when it has ended;
* `outside fresh` is an event that is no thread's: it may start threads, or stop them all. -/
structure Threads {Act : Type} (Reply : Act → Type) (Name ε ρ Answer Ext σ : Type) where
  code : Name → Code Reply ε ρ
  perform : Nat → Nat → (a : Act) → Answer → σ → Option (σ × Reply a × List Name)
  retire : Nat → Name → Except ε ρ → σ → σ
  outside : Nat → Ext → σ → Option (σ × List Name × Bool)

structure Thread {Act : Type} (Reply : Act → Type) (Name ε ρ : Type) where
  name : Name
  rest : Code Reply ε ρ

/-- The shared state and the threads; a thread keeps its number, and leaves `none`
when it has ended or was stopped. -/
structure Pool {Act : Type} (Reply : Act → Type) (Name ε ρ σ : Type) where
  state : σ
  threads : List (Option (Thread Reply Name ε ρ))

inductive Turn (Answer Ext : Type) where
  | step (thread : Nat) (answer : Answer)
  | finish (thread : Nat)
  | outside (event : Ext)

namespace Threads

variable {Act : Type} {Reply : Act → Type} {Name ε ρ Answer Ext σ : Type}
  (T : Threads Reply Name ε ρ Answer Ext σ)

def spawn (n : Name) : Option (Thread Reply Name ε ρ) := some ⟨n, T.code n⟩

def remaining (stops : Bool) (threads : List (Option (Thread Reply Name ε ρ))) :
    List (Option (Thread Reply Name ε ρ)) :=
  if stops then threads.map fun _ => none else threads

def step (c : Pool Reply Name ε ρ σ) : Turn Answer Ext → Option (Pool Reply Name ε ρ σ)
  | .step τ answer =>
    match c.threads[τ]? with
    | some (some ⟨n, .act a k⟩) =>
      match T.perform τ c.threads.length a answer c.state with
      | none => none
      | some (s, r, new) =>
        some ⟨s, c.threads.set τ (some ⟨n, k r⟩) ++ new.map T.spawn⟩
    | _ => none
  | .finish τ =>
    match c.threads[τ]? with
    | some (some ⟨n, .ret a⟩) =>
      some ⟨T.retire τ n (.ok a) c.state, c.threads.set τ none⟩
    | some (some ⟨n, .raise e⟩) =>
      some ⟨T.retire τ n (.error e) c.state, c.threads.set τ none⟩
    | _ => none
  | .outside x =>
    match T.outside c.threads.length x c.state with
    | none => none
    | some (s, new, stops) => some ⟨s, remaining stops c.threads ++ new.map T.spawn⟩

def machine (start : σ → Prop) : Machine (Pool Reply Name ε ρ σ) (Turn Answer Ext) where
  start c := start c.state ∧ c.threads = []
  step := T.step

end Threads

/-- What a verification of the threads rests on.

* `Inv` holds of the shared state at all times;
* `Below n` says that the state mentions no thread numbered `n` or more, so that a
  thread that is about to be started is new to it;
* `Rely τ` is what the other threads may do to it while thread `τ` does nothing;
* `Entry τ n` is what a thread of name `n` may assume when it is started as `τ`;
* `Before τ a` is what has to hold when thread `τ` performs `a`;
* `Returns`, `Raises` are what a thread has to leave when it ends. -/
structure Contract (Act Name ε ρ σ : Type) where
  Inv : σ → Prop
  Below : Nat → σ → Prop
  Rely : Nat → σ → σ → Prop
  refl : ∀ τ s, Rely τ s s
  trans : ∀ τ s t u, Rely τ s t → Rely τ t u → Rely τ s u
  Entry : Nat → Name → σ → Prop
  Before : Nat → Act → σ → Prop
  Returns : Nat → Name → ρ → σ → Prop
  Raises : Nat → Name → ε → σ → Prop

namespace Threads

variable {Act : Type} {Reply : Act → Type} {Name ε ρ Answer Ext σ : Type}
  (T : Threads Reply Name ε ρ Answer Ext σ) (C : Contract Act Name ε ρ σ)

/-- What performing `a` as thread `τ` in `s` owes: the invariant, what the others rely on,
and what the threads it starts assume; and `k` afterwards. -/
def Owes (τ : Nat) (a : Act) (s : σ) (k : Reply a → σ → Prop) : Prop :=
  C.Before τ a s ∧ ∀ fresh answer t r new, C.Below fresh s →
    T.perform τ fresh a answer s = some (t, r, new) →
    C.Inv t ∧ (∀ τ', τ' ≠ τ → C.Rely τ' s t) ∧
    (∀ (i : Nat) (n : Name), new[i]? = some n → C.Entry (fresh + i) n t) ∧ k r t

/-- The weakest precondition of `m`, run by thread `τ` among the others, for ending
in `Q` after a return and in `E` after an exception. -/
def wp {ε' α : Type} (τ : Nat) (Q : α → σ → Prop) (E : ε' → σ → Prop) :
    Code Reply ε' α → σ → Prop
  | .ret a, s => ∀ s', C.Rely τ s s' → C.Inv s' → Q a s'
  | .raise e, s => ∀ s', C.Rely τ s s' → C.Inv s' → E e s'
  | .act a k, s => ∀ s', C.Rely τ s s' → C.Inv s' →
      T.Owes C τ a s' fun r t => wp τ Q E (k r) t

section Rules

variable {T C} {ε' α β : Type} {τ : Nat} {s s' : σ}

theorem wp_stable {Q : α → σ → Prop} {E : ε' → σ → Prop} {m : Code Reply ε' α}
    (h : T.wp C τ Q E m s) (hs : C.Rely τ s s') : T.wp C τ Q E m s' := by
  cases m with
  | ret a | raise e | act a k => exact fun u hu hI => h u (C.trans _ _ _ _ hs hu) hI

/-- The rule of consequence; the conditions may be weakened to what holds of all that
the others still do. -/
theorem wp_mono {Q Q' : α → σ → Prop} {E E' : ε' → σ → Prop} {m : Code Reply ε' α}
    (h : T.wp C τ Q E m s)
    (hQ : ∀ a s, C.Inv s → (∀ s', C.Rely τ s s' → C.Inv s' → Q a s') → Q' a s)
    (hE : ∀ e s, C.Inv s → (∀ s', C.Rely τ s s' → C.Inv s' → E e s') → E' e s) :
    T.wp C τ Q' E' m s := by
  induction m generalizing s with
  | ret a =>
    intro u hu hI
    exact hQ a u hI fun v hv => h v (C.trans _ _ _ _ hu hv)
  | raise e =>
    intro u hu hI
    exact hE e u hI fun v hv => h v (C.trans _ _ _ _ hu hv)
  | act a k ih =>
    intro u hu hI
    refine ⟨(h u hu hI).1, ?_⟩
    intro fresh answer t r new hfresh hp
    obtain ⟨hinv, hrely, hnew, hrest⟩ := (h u hu hI).2 fresh answer t r new hfresh hp
    exact ⟨hinv, hrely, hnew, ih r hrest⟩

theorem wp_andThen {ε'' : Type} {Q : β → σ → Prop} {E : ε'' → σ → Prop}
    {m : Code Reply ε' α} {f : α → Code Reply ε'' β} {g : ε' → Code Reply ε'' β}
    (hI : C.Inv s)
    (h : T.wp C τ (fun a s => T.wp C τ Q E (f a) s) (fun e s => T.wp C τ Q E (g e) s) m s) :
    T.wp C τ Q E (m.andThen f g) s := by
  induction m generalizing s with
  | ret a | raise e => exact h s (C.refl _ _) hI
  | act a k ih =>
    intro u hu hIu
    refine ⟨(h u hu hIu).1, ?_⟩
    intro fresh answer t r new hfresh hp
    obtain ⟨hinv, hrely, hnew, hrest⟩ := (h u hu hIu).2 fresh answer t r new hfresh hp
    exact ⟨hinv, hrely, hnew, ih r hinv hrest⟩

/-! ### Routines -/

variable {L : Type}

variable (T C) in
/-- The weakest precondition of a routine, on its local variables and the state.  It is
asked for only where the invariant holds. -/
def wpr (τ : Nat) (Q : α → L → σ → Prop) (E : ε' → L → σ → Prop) (m : Routine Reply ε' L α)
    (l : L) (s : σ) : Prop :=
  C.Inv s → T.wp C τ (fun (a : α × L) s => Q a.1 a.2 s) (fun (e : ε' × L) s => E e.1 e.2 s) (m l) s

variable {Q : α → L → σ → Prop} {E : ε' → L → σ → Prop} {l : L} {m : Routine Reply ε' L α}

theorem wpr_mono {Q' : α → L → σ → Prop} {E' : ε' → L → σ → Prop} (h : T.wpr C τ Q E m l s)
    (hQ : ∀ a l s, C.Inv s → (∀ s', C.Rely τ s s' → C.Inv s' → Q a l s') → Q' a l s)
    (hE : ∀ e l s, C.Inv s → (∀ s', C.Rely τ s s' → C.Inv s' → E e l s') → E' e l s) :
    T.wpr C τ Q' E' m l s := by
  intro hI
  refine wp_mono (h hI) ?_ ?_
  · intro a u hu ha
    exact hQ a.1 a.2 u hu ha
  · intro e u hu he
    exact hE e.1 e.2 u hu he

theorem wpr_pure {a : α} (h : ∀ s', C.Rely τ s s' → C.Inv s' → Q a l s') :
    T.wpr C τ Q E (pure a) l s :=
  fun _ => h

theorem wpr_raise {e : ε'} (h : ∀ s', C.Rely τ s s' → C.Inv s' → E e l s') :
    T.wpr C τ Q E (Routine.raise e) l s :=
  fun _ => h

theorem wpr_ofExcept {x : Except ε' α}
    (hok : ∀ a s', x = .ok a → C.Rely τ s s' → C.Inv s' → Q a l s')
    (herr : ∀ e s', x = .error e → C.Rely τ s s' → C.Inv s' → E e l s') :
    T.wpr C τ Q E (Routine.ofExcept x) l s := by
  cases x with
  | ok a => exact wpr_pure fun s' => hok a s' rfl
  | error e => exact wpr_raise fun s' => herr e s' rfl

theorem wpr_get {Q : L → L → σ → Prop} (h : ∀ s', C.Rely τ s s' → C.Inv s' → Q l l s') :
    T.wpr C τ Q E Routine.get l s :=
  fun _ => h

theorem wpr_modify {Q : Unit → L → σ → Prop} {f : L → L}
    (h : ∀ s', C.Rely τ s s' → C.Inv s' → Q () (f l) s') :
    T.wpr C τ Q E (Routine.modify f) l s :=
  fun _ => h

theorem wpr_perform {a : Act} {Q : Reply a → L → σ → Prop}
    (h : ∀ s', C.Rely τ s s' → C.Inv s' → T.Owes C τ a s' fun r t =>
      ∀ t', C.Rely τ t t' → C.Inv t' → Q r l t') :
    T.wpr C τ Q E (Routine.perform a) l s :=
  fun _ => h

theorem wpr_bind {Q : β → L → σ → Prop} {f : α → Routine Reply ε' L β}
    (h : T.wpr C τ (fun a l s => T.wpr C τ Q E (f a) l s) E m l s) :
    T.wpr C τ Q E (m >>= f) l s := by
  intro hI
  refine wp_andThen hI (wp_mono (h hI) ?_ ?_)
  · intro a u hu hf
    exact hf u (C.refl _ _) hu hu
  · intro e u _ he
    exact he

theorem wpr_orElse {h : ε' → Routine Reply ε' L α}
    (hm : T.wpr C τ Q (fun e l s => T.wpr C τ Q E (h e) l s) m l s) :
    T.wpr C τ Q E (m.orElse h) l s := by
  intro hI
  refine wp_andThen hI (wp_mono (hm hI) ?_ ?_)
  · intro a u _ ha
    exact ha
  · intro e u hu he
    exact he u (C.refl _ _) hu hu

theorem wpr_andFinally {c : Routine Reply ε' L Unit}
    (hm : T.wpr C τ (fun a l s => T.wpr C τ (fun _ l s => Q a l s) E c l s)
      (fun e l s => T.wpr C τ (fun _ l s => E e l s) E c l s) m l s) :
    T.wpr C τ Q E (m.andFinally c) l s := by
  intro hI
  refine wp_andThen hI (wp_mono (hm hI) ?_ ?_)
  · intro a u hu ha
    refine wp_andThen hu (wp_mono (ha u (C.refl _ _) hu hu) ?_ ?_)
    · intro b v _ hb
      exact hb
    · intro e v _ he
      exact he
  · intro e u hu he
    refine wp_andThen hu (wp_mono (he u (C.refl _ _) hu hu) ?_ ?_)
    · intro b v _ hb
      exact hb
    · intro e' v _ he'
      exact he'

theorem wpr_when {p : Bool} {Q : Unit → L → σ → Prop} {m : Routine Reply ε' L Unit}
    (hm : p = true → T.wpr C τ Q E m l s)
    (hskip : p = false → ∀ s', C.Rely τ s s' → C.Inv s' → Q () l s') :
    T.wpr C τ Q E (Routine.when p m) l s := by
  cases p with
  | true => exact hm rfl
  | false => exact wpr_pure (hskip rfl)

theorem wp_main {Q : ρ → σ → Prop} {E : ε' → σ → Prop} {f : α → ρ} (hI : C.Inv s)
    (h : T.wpr C τ (fun a _ s => Q (f a) s) (fun e _ s => E e s) m l s) :
    T.wp C τ Q E (m.main l f) s := by
  refine wp_andThen hI (wp_mono (h hI) ?_ ?_)
  · intro a u _ ha
    exact ha
  · intro e u _ he
    exact he

end Rules

/-! ### A pool of verified threads -/

structure Verified (c : Pool Reply Name ε ρ σ) : Prop where
  inv : C.Inv c.state
  below : C.Below c.threads.length c.state
  threads : ∀ τ n m, c.threads[τ]? = some (some ⟨n, m⟩) →
    T.wp C τ (C.Returns τ n) (C.Raises τ n) m c.state

/-- What has to be proved of the threads one at a time, and of what happens outside them. -/
structure Obeys (start : σ → Prop) : Prop where
  start : ∀ s, start s → C.Inv s ∧ C.Below 0 s
  entry : ∀ τ n s, C.Inv s → C.Entry τ n s → T.wp C τ (C.Returns τ n) (C.Raises τ n) (T.code n) s
  performs : ∀ τ fresh a answer s t r new, τ < fresh → C.Below fresh s →
    T.perform τ fresh a answer s = some (t, r, new) → C.Below (fresh + new.length) t
  returned : ∀ τ n a s, C.Inv s → C.Returns τ n a s →
    C.Inv (T.retire τ n (.ok a) s) ∧ ∀ τ', τ' ≠ τ → C.Rely τ' s (T.retire τ n (.ok a) s)
  raised : ∀ τ n e s, C.Inv s → C.Raises τ n e s →
    C.Inv (T.retire τ n (.error e) s) ∧ ∀ τ', τ' ≠ τ → C.Rely τ' s (T.retire τ n (.error e) s)
  retires : ∀ τ n x fresh s, τ < fresh → C.Below fresh s → C.Below fresh (T.retire τ n x s)
  outside : ∀ fresh x s t new stops, C.Inv s → C.Below fresh s →
    T.outside fresh x s = some (t, new, stops) →
    C.Inv t ∧ C.Below (fresh + new.length) t ∧ (stops = false → ∀ τ, C.Rely τ s t) ∧
      ∀ (i : Nat) (n : Name), new[i]? = some n → C.Entry (fresh + i) n t

variable {T C} {α : Type} {i τ : Nat}

theorem getElem?_set_append {xs ys : List (Option α)} {x : Option α} {y : α}
    (h : (xs.set τ x ++ ys)[i]? = some (some y)) :
    (i = τ ∧ x = some y) ∨ (i ≠ τ ∧ xs[i]? = some (some y)) ∨
      ys[i - xs.length]? = some (some y) ∧ xs.length ≤ i := by
  rw [List.getElem?_append] at h
  split at h
  · rename_i hi
    rw [List.getElem?_set] at h
    split at h
    · rename_i hτ
      split at h
      · simp only [Option.some.injEq] at h
        exact .inl ⟨hτ.symm, h⟩
      · cases h
    · rename_i hτ
      exact .inr (.inl ⟨fun e => hτ e.symm, h⟩)
  · rename_i hi
    rw [List.length_set] at h hi
    exact .inr (.inr ⟨h, Nat.not_lt.mp hi⟩)

theorem getElem?_remaining {stops : Bool} {threads : List (Option (Thread Reply Name ε ρ))}
    {t : Thread Reply Name ε ρ} (h : (remaining stops threads)[i]? = some (some t)) :
    stops = false ∧ threads[i]? = some (some t) := by
  cases stops with
  | true => simp [remaining, List.getElem?_replicate] at h
  | false => exact ⟨rfl, h⟩

theorem length_remaining (stops : Bool) (threads : List (Option (Thread Reply Name ε ρ))) :
    (remaining stops threads).length = threads.length := by
  cases stops with
  | true => simp [remaining]
  | false => rfl

theorem lt_of_getElem? {xs : List α} {x : α} (h : xs[i]? = some x) : i < xs.length :=
  (List.getElem?_eq_some_iff.mp h).1

variable {start : σ → Prop} {c d : Pool Reply Name ε ρ σ} {e : Turn Answer Ext}

/-- **One step keeps every thread verified.** -/
theorem verified_step (hT : T.Obeys C start) (hc : T.Verified C c) (h : T.step c e = some d) :
    T.Verified C d := by
  obtain ⟨hI, hbelow, hthreads⟩ := hc
  cases e with
  | step τ answer =>
    simp only [step] at h
    split at h
    · rename_i n a k hτ
      split at h
      · cases h
      · rename_i s r new hp
        simp only [Option.some.injEq] at h
        subst h
        have hwp := hthreads τ n _ hτ c.state (C.refl _ _) hI
        obtain ⟨hinv, hrely, hnew, hrest⟩ := hwp.2 _ _ _ _ _ hbelow hp
        refine ⟨hinv, ?_, ?_⟩
        · have hlen := hT.performs _ _ _ _ _ _ _ _ (lt_of_getElem? hτ) hbelow hp
          simpa using hlen
        · intro i m code hi
          rcases getElem?_set_append hi with ⟨rfl, hx⟩ | ⟨hne, hx⟩ | ⟨hx, hle⟩
          · simp only [Option.some.injEq, Thread.mk.injEq] at hx
            obtain ⟨rfl, rfl⟩ := hx
            exact hrest
          · exact wp_stable (hthreads i m code hx) (hrely i hne)
          · rw [List.getElem?_map, Option.map_eq_some_iff] at hx
            obtain ⟨m', hm', heq⟩ := hx
            simp only [spawn, Option.some.injEq, Thread.mk.injEq] at heq
            obtain ⟨rfl, rfl⟩ := heq
            have hentry := hnew _ _ hm'
            rw [Nat.add_sub_cancel' hle] at hentry
            exact hT.entry i m' s hinv hentry
    · cases h
  | finish τ =>
    simp only [step] at h
    have hkeep : ∀ s, (∀ τ', τ' ≠ τ → C.Rely τ' c.state s) → ∀ i m code,
        (c.threads.set τ none)[i]? = some (some ⟨m, code⟩) →
        T.wp C i (C.Returns i m) (C.Raises i m) code s := by
      intro s hs i m code hi
      have hi' : (c.threads.set τ none ++ [])[i]? = some (some ⟨m, code⟩) := by simpa using hi
      rcases getElem?_set_append hi' with ⟨-, hx⟩ | ⟨hne, hx⟩ | ⟨hx, -⟩
      · cases hx
      · exact wp_stable (hthreads i m code hx) (hs i hne)
      · simp at hx
    split at h
    · rename_i n a hτ
      simp only [Option.some.injEq] at h
      subst h
      have hret := hthreads τ n _ hτ c.state (C.refl _ _) hI
      obtain ⟨hinv, hrely⟩ := hT.returned τ n a c.state hI hret
      refine ⟨hinv, ?_, hkeep _ hrely⟩
      simpa using hT.retires τ n (.ok a) _ _ (lt_of_getElem? hτ) hbelow
    · rename_i n e hτ
      simp only [Option.some.injEq] at h
      subst h
      have hret := hthreads τ n _ hτ c.state (C.refl _ _) hI
      obtain ⟨hinv, hrely⟩ := hT.raised τ n e c.state hI hret
      refine ⟨hinv, ?_, hkeep _ hrely⟩
      simpa using hT.retires τ n (.error e) _ _ (lt_of_getElem? hτ) hbelow
    · cases h
  | outside x =>
    simp only [step] at h
    split at h
    · cases h
    · rename_i s new stops hx
      simp only [Option.some.injEq] at h
      subst h
      obtain ⟨hinv, hlen, hrely, hnew⟩ := hT.outside _ x _ _ _ _ hI hbelow hx
      refine ⟨hinv, by simpa [length_remaining] using hlen, ?_⟩
      intro i m code hi
      rw [List.getElem?_append] at hi
      split at hi
      · obtain ⟨hstops, hi'⟩ := getElem?_remaining hi
        exact wp_stable (hthreads i m code hi') (hrely hstops i)
      · rename_i hlen
        rw [length_remaining] at hi hlen
        rw [List.getElem?_map, Option.map_eq_some_iff] at hi
        obtain ⟨m', hm', heq⟩ := hi
        simp only [spawn, Option.some.injEq, Thread.mk.injEq] at heq
        obtain ⟨rfl, rfl⟩ := heq
        have hentry := hnew _ _ hm'
        rw [Nat.add_sub_cancel' (Nat.not_lt.mp hlen)] at hentry
        exact hT.entry i m' s hinv hentry

/-- A step is one that some thread relies on, or something outside stops the threads. -/
theorem rely_step (hT : T.Obeys C start) (hc : T.Verified C c) (h : T.step c e = some d) :
    (∃ τ, C.Rely τ c.state d.state) ∨
      ∃ x new, T.outside c.threads.length x c.state = some (d.state, new, true) := by
  obtain ⟨hI, hbelow, hthreads⟩ := hc
  cases e with
  | step τ answer =>
    simp only [step] at h
    split at h
    · rename_i n a k hτ
      split at h
      · cases h
      · rename_i s r new hp
        cases h
        have hwp := hthreads τ n _ hτ c.state (C.refl _ _) hI
        obtain ⟨-, hrely, -⟩ := hwp.2 _ _ _ _ _ hbelow hp
        exact .inl ⟨τ + 1, hrely (τ + 1) (Nat.succ_ne_self τ)⟩
    · cases h
  | finish τ =>
    simp only [step] at h
    split at h
    · rename_i n a hτ
      cases h
      have hret := hthreads τ n _ hτ c.state (C.refl _ _) hI
      exact .inl ⟨τ + 1, (hT.returned τ n a c.state hI hret).2 _ (Nat.succ_ne_self τ)⟩
    · rename_i n e hτ
      cases h
      have hret := hthreads τ n _ hτ c.state (C.refl _ _) hI
      exact .inl ⟨τ + 1, (hT.raised τ n e c.state hI hret).2 _ (Nat.succ_ne_self τ)⟩
    · cases h
  | outside x =>
    simp only [step] at h
    split at h
    · cases h
    · rename_i s new stops hx
      cases h
      cases stops with
      | true => exact .inr ⟨x, new, hx⟩
      | false => exact .inl ⟨0, (hT.outside _ x _ _ _ _ hI hbelow hx).2.2.1 rfl 0⟩

/-- **Threads verified one at a time are safe together**: in every state a pool reaches,
the invariant holds and every thread still meets its contract. -/
theorem verified_of_reaches (hT : T.Obeys C start)
    {P : Pool Reply Name ε ρ σ → Turn Answer Ext → Prop} (h : (T.machine start).Reaches P c) :
    T.Verified C c := by
  refine Machine.invariant (I := T.Verified C) ?_ ?_ h
  · rintro c ⟨hs, hempty⟩
    obtain ⟨hI, hbelow⟩ := hT.start _ hs
    refine ⟨hI, by rw [hempty]; exact hbelow, ?_⟩
    intro τ n m hτ
    simp [hempty] at hτ
  · rintro c e d hc - hstep
    exact verified_step hT hc hstep

def action (c : Pool Reply Name ε ρ σ) : Turn Answer Ext → Option Act
  | .step τ _ =>
    match c.threads[τ]? with
    | some (some ⟨_, .act a _⟩) => some a
    | _ => none
  | _ => none

/-- What a step does to the shared state: it performs its action, or a thread leaves, or
something happens outside. -/
theorem step_state (h : T.step c e = some d) : (∃ τ answer a r new, action c e = some a ∧
      T.perform τ c.threads.length a answer c.state = some (d.state, r, new)) ∨
    (∃ τ n x, d.state = T.retire τ n x c.state) ∨
    ∃ x new stops, T.outside c.threads.length x c.state = some (d.state, new, stops) := by
  cases e with
  | step τ answer =>
    simp only [step] at h
    split at h
    · rename_i n a k hτ
      split at h
      · cases h
      · rename_i s r new hp
        cases h
        exact .inl ⟨τ, answer, a, r, new, by simp [action, hτ], hp⟩
    · cases h
  | finish τ =>
    simp only [step] at h
    split at h
    · cases h
      exact .inr (.inl ⟨τ, _, _, rfl⟩)
    · cases h
      exact .inr (.inl ⟨τ, _, _, rfl⟩)
    · cases h
  | outside x =>
    simp only [step] at h
    split at h
    · cases h
    · rename_i s new stops hx
      cases h
      exact .inr (.inr ⟨x, new, stops, hx⟩)

theorem Verified.before (hc : T.Verified C c) {n : Name} {a : Act} {k : Reply a → Code Reply ε ρ}
    (hτ : c.threads[τ]? = some (some ⟨n, .act a k⟩)) : C.Before τ a c.state :=
  (hc.threads τ n _ hτ c.state (C.refl _ _) hc.inv).1

end Threads

end AgenticKibana.Library
