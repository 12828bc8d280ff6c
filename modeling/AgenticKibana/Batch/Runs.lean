import AgenticKibana.Batch.Rules

/-!
# Runs of the batch-job store

Every call meets its contract, so every entry that a run adds to the history is justified
by what stands there before it (`step_entry`).  What each justified entry preserves of the
registry and the history, a run preserves (`run_invariant`); the results on resets and on
result folding are instances.
-/

namespace AgenticKibana.Batch

open AgenticKibana.Library Machine Threads Routine List

variable {calls : Request → Bool} {A : Closure → Prop} {P : Registry → Prop} {n τ : Nat} {env : Env}
  {s t : World} {a : Act} {r : a.Reply} {Q : BatchStore → Turn Answer Event → Prop}
  {c d : BatchStore} {G : Nat → Mutation → Prop}

theorem below_append {h h' : List Entry} {e0 : Entry} (hb : ∀ e ∈ h, e.by < n)
    (heq : h' = h ++ [e0]) (he0 : e0.by < n) : ∀ e ∈ h', e.by < n := by
  intro e he
  rw [heq] at he
  rcases mem_append.mp he with hmem | hmem
  · exact hb e hmem
  · obtain rfl := mem_singleton.mp hmem
    exact he0

variable {value : Value} {next : Registry} {base : Nat}

theorem below_putIf {c : Closure} (h : ∀ e ∈ s.history, e.by < n) (hτ : τ < n) :
    ∀ e ∈ (s.putIf τ c env value next base).history, e.by < n := by
  unfold World.putIf
  split
  · exact below_append h rfl hτ
  · exact h

variable {fresh : Nat} {answer : Answer} {new : List Request}

theorem effect_new (hp : effect τ fresh a answer s = some (t, r, new)) : new = [] := by
  cases a with
  | putIf c env value next base | record jobId cid row =>
    simp only [effect] at hp
    split at hp <;> (cases hp; rfl)
  | _ =>
    cases hp
    rfl

theorem below_effect (h : ∀ e ∈ s.history, e.by < n) (hτ : τ < n)
    (hp : effect τ fresh a answer s = some (t, r, new)) : ∀ e ∈ t.history, e.by < n := by
  cases a with
  | obtain | admission m =>
    cases hp
    exact below_append h rfl hτ
  | putIf c env value next base =>
    simp only [effect] at hp
    split at hp
    · cases hp
      exact below_putIf h hτ
    · cases hp
      exact h
    · cases hp
      exact below_putIf h hτ
  | record jobId cid row =>
    simp only [effect] at hp
    split at hp
    · cases hp
      exact below_append h rfl hτ
    · cases hp
      exact h
    · cases hp
      exact h
  | _ =>
    cases hp
    exact h

theorem batch_obeys (hcalls : ∀ request, calls request = true → request.Within A) :
    (batch calls).Obeys (contract A) fun s => s.history = [] ∧ P s.registry where
  start := by
    rintro s ⟨hs, -⟩
    refine ⟨trivial, ?_⟩
    intro e he
    rw [hs] at he
    cases he
  entry := fun _ _ _ _ h => wp_program h
  performs := by
    intro τ fresh a answer s t r new hτ hb hp
    have heffect : effect τ fresh a answer s = some (t, r, new) := hp
    have hbelow : ∀ e ∈ t.history, e.by < fresh := below_effect hb hτ heffect
    exact fun e he => Nat.lt_of_lt_of_le (hbelow e he) (Nat.le_add_right _ _)
  returned := fun τ request outcome s _ _ => ⟨trivial, fun _ _ => Rely.record _⟩
  raised := fun τ request e s _ _ => ⟨trivial, fun _ _ => Rely.refl s⟩
  retires := by
    intro τ request result fresh s hτ hb
    cases result with
    | ok outcome => exact below_append hb rfl hτ
    | error e => exact hb
  outside := by
    intro fresh x s t new stops _ hb hx
    cases x with
    | call request =>
      simp only [batch, outside] at hx
      split at hx
      · rename_i hcall
        cases hx
        refine ⟨trivial, fun e he => Nat.lt_succ_of_lt (hb e he), fun _ _ => Rely.refl s, ?_⟩
        intro i n hn
        cases i with
        | zero =>
          simp only [List.getElem?_cons_zero, Option.some.injEq] at hn
          subst hn
          exact hcalls request hcall
        | succ i => simp at hn
      · cases hx
    | jobsFence fence =>
      cases hx
      refine ⟨trivial, hb, fun _ _ => ?_, fun i n hn => by simp at hn⟩
      exact ⟨prefix_rfl, Nat.le_refl _, fun _ => rfl⟩
    | crash =>
      cases hx
      exact ⟨trivial, hb, fun _ _ => Rely.refl s, fun i n hn => by simp at hn⟩

theorem verified (hcalls : ∀ request, calls request = true → request.Within A)
    (h : (batchMachine calls P).Reaches Q c) : (batch calls).Verified (contract A) c :=
  verified_of_reaches (batch_obeys hcalls) h

/-- The entry is the return of the call `τ`. -/
def Entry.returns (τ : Nat) : Entry → Prop
  | .returned τ' _ _ => τ' = τ
  | _ => False

theorem effect_returns {τ' : Nat} (hp : effect τ fresh a answer s = some (t, r, new)) {e : Entry}
    (he : e ∈ t.history) (hr : e.returns τ') : e ∈ s.history := by
  have hrecord : ∀ {s : World} {e0 : Entry}, e ∈ s.history ++ [e0] → ¬ e0.returns τ' →
      e ∈ s.history := by
    intro s e0 hmem hne
    rcases mem_append.mp hmem with hmem | hmem
    · exact hmem
    · obtain rfl := mem_singleton.mp hmem
      exact absurd hr hne
  have hput : ∀ {c : Closure} {env : Env} {value : Value} {next : Registry} {base : Nat},
      e ∈ (s.putIf τ c env value next base).history → e ∈ s.history := by
    intro c env value next base hmem
    unfold World.putIf at hmem
    split at hmem
    · exact hrecord hmem id
    · exact hmem
  cases a with
  | obtain | admission m =>
    cases hp
    exact hrecord he id
  | putIf c env value next base =>
    simp only [effect] at hp
    split at hp
    · cases hp
      exact hput he
    · cases hp
      exact he
    · cases hp
      exact hput he
  | record jobId cid row =>
    simp only [effect] at hp
    split at hp
    · cases hp
      exact hrecord he id
    · cases hp
      exact he
    · cases hp
      exact he
  | _ =>
    cases hp
    exact he

def ReturnedOver (c : BatchStore) : Prop :=
  ∀ τ, ∀ e ∈ c.state.history, e.returns τ → ∀ t, c.threads[τ]? ≠ some (some t)

variable {e : Turn Answer Event}

theorem returnedOver_step (hc : (batch calls).Verified (contract A) c) (hr : ReturnedOver c)
    (h : (batch calls).step c e = some d) : ReturnedOver d := by
  have hby : ∀ {τ : Nat} {e : Entry}, e ∈ c.state.history → e.returns τ → τ < c.threads.length := by
    intro τ e he hret
    have hlt := hc.below e he
    cases e with
    | returned τ' jobId outcome => exact hret ▸ hlt
    | _ => cases hret
  cases e with
  | step τ answer =>
    simp only [Threads.step] at h
    split at h
    · rename_i n a k hτ
      split at h
      · cases h
      · rename_i s r new hp
        cases h
        have heffect : effect τ c.threads.length a answer c.state = some (s, r, new) := hp
        intro τ' e he hret t ht
        have hold := effect_returns heffect he hret
        rcases getElem?_set_append ht with ⟨rfl, -⟩ | ⟨-, ht⟩ | ⟨ht, -⟩
        · exact hr _ e hold hret _ hτ
        · exact hr τ' e hold hret t ht
        · rw [effect_new heffect] at ht
          simp at ht
    · cases h
  | finish τ =>
    have hover : ∀ s, (∀ e ∈ s.history, ∀ τ', e.returns τ' → e ∈ c.state.history ∨ τ' = τ) →
        ReturnedOver ⟨s, c.threads.set τ none⟩ := by
      intro s hs τ' e he hret t ht
      have ht' : (c.threads.set τ none ++ [])[τ']? = some (some t) := by simpa using ht
      rcases getElem?_set_append ht' with ⟨-, hx⟩ | ⟨hne, ht'⟩ | ⟨hx, -⟩
      · cases hx
      · rcases hs e he τ' hret with hold | heq
        · exact hr τ' e hold hret t ht'
        · exact hne heq
      · simp at hx
    simp only [Threads.step] at h
    split at h
    · cases h
      refine hover _ ?_
      intro e he τ' hret
      rcases mem_append.mp he with hmem | hmem
      · exact .inl hmem
      · obtain rfl := mem_singleton.mp hmem
        exact .inr hret.symm
    · cases h
      exact hover _ fun e he _ _ => .inl he
    · cases h
  | outside x =>
    simp only [Threads.step] at h
    split at h
    · cases h
    · rename_i s new stops hx
      cases h
      have hhistory : s.history = c.state.history := by
        cases x with
        | call request =>
          simp only [batch, outside] at hx
          split at hx
          · cases hx
            rfl
          · cases hx
        | jobsFence fence | crash =>
          cases hx
          rfl
      intro τ' e he hret t ht
      have hold : e ∈ c.state.history := hhistory ▸ he
      rw [List.getElem?_append] at ht
      split at ht
      · exact hr τ' e hold hret t (getElem?_remaining ht).2
      · rename_i hlen
        rw [length_remaining] at hlen
        exact hlen (hby hold hret)

theorem returnedOver (hcalls : ∀ request, calls request = true → request.Within A)
    (h : (batchMachine calls P).Reaches Q c) : ReturnedOver c := by
  refine Machine.reaches_induction (I := ReturnedOver) ?_ ?_ h
  · rintro c ⟨⟨hs, -⟩, -⟩ τ e he
    rw [hs] at he
    cases he
  · intro c e d hc hr _ hd
    exact returnedOver_step (verified hcalls hc) hr hd

/-! ### What a step adds to the history -/

/-- An entry that a step from `s` to `t` adds, with what stands before it.  `G` is what the
run promises of an admission. -/
inductive Justified (A : Closure → Prop) (G : Nat → Mutation → Prop) (s t : World) : Entry → Prop
  | obtained {τ : Nat} (same : t.registry = s.registry) : Justified A G s t (.obtained τ)
  | admitted {τ : Nat} {m : Mutation} (ready : Ready A τ m s.history) (promised : G τ m)
      (same : t.registry = s.registry) :
      Justified A G s t (.admitted τ m s.registry.resetEpoch)
  | wrote {τ : Nat} {c : Closure} {env : Env} {value : Value} (rests : Admitted A τ c s.history)
      (applied : c.apply env s.registry = .ok (value, t.registry)) :
      Justified A G s t (.wrote τ c env value s.registry t.registry)
  | recorded {τ : Nat} {row : LedgerRow} {jobId cid : String}
      (leased : Leased τ jobId cid s.history)
      (key : row.key = Store.ledgerKey jobId cid) (same : t.registry = s.registry) :
      Justified A G s t (.recorded τ jobId cid row)
  | returned {τ : Nat} {jobId : String} {outcome : Outcome}
      (handsBack : ∀ recorded, outcome = .results recorded →
        HandsBack τ jobId recorded s.history)
      (first : ∀ e ∈ s.history, ¬ e.returns τ) (same : t.registry = s.registry) :
      Justified A G s t (.returned τ jobId outcome)

inductive Adds (A : Closure → Prop) (G : Nat → Mutation → Prop) (s t : World) : Prop
  | nothing (registry : t.registry = s.registry) (history : t.history = s.history)
  | entry (e : Entry) (history : t.history = s.history ++ [e]) (justified : Justified A G s t e)

theorem adds_putIf {c : Closure}
    (happly : base = s.rev → c.apply env s.registry = .ok (value, next))
    (hc : Admitted A τ c s.history) : Adds A G s (s.putIf τ c env value next base) := by
  by_cases hbase : base = s.rev
  · rw [World.putIf, if_pos hbase]
    exact .entry _ rfl (.wrote hc (happly hbase))
  · rw [World.putIf, if_neg hbase]
    exact .nothing rfl rfl

theorem adds_effect (hb : Before A τ s a) (hG : ∀ m, a = .admission m → G τ m)
    (hp : effect τ fresh a answer s = some (t, r, new)) : Adds A G s t := by
  cases a with
  | obtain =>
    cases hp
    exact .entry _ rfl (.obtained rfl)
  | admission m =>
    cases hp
    exact .entry _ rfl (.admitted hb (hG m rfl) rfl)
  | putIf c env value next base =>
    simp only [effect] at hp
    split at hp
    · cases hp
      exact adds_putIf hb.1 hb.2
    · cases hp
      exact .nothing rfl rfl
    · cases hp
      exact adds_putIf hb.1 hb.2
  | record jobId cid row =>
    obtain ⟨hleased, hkey⟩ := hb
    simp only [effect] at hp
    split at hp
    · cases hp
      exact .entry _ rfl (.recorded hleased hkey rfl)
    · cases hp
      exact .nothing rfl rfl
    · cases hp
      exact .nothing rfl rfl
  | _ =>
    cases hp
    exact .nothing rfl rfl

/-- **One step adds at most one entry, and a justified one.** -/
theorem step_adds (hc : (batch calls).Verified (contract A) c) (hr : ReturnedOver c)
    (hG : ∀ τ answer m, e = .step τ answer → action c e = some (.admission m) → G τ m)
    (h : (batch calls).step c e = some d) : Adds A G c.state d.state := by
  cases e with
  | step τ answer =>
    simp only [Threads.step] at h
    split at h
    · rename_i n a k hτ
      split at h
      · cases h
      · rename_i s r new hp
        cases h
        have heffect : effect τ c.threads.length a answer c.state = some (s, r, new) := hp
        refine adds_effect (hc.before hτ) ?_ heffect
        rintro m rfl
        exact hG τ answer m rfl (by simp [action, hτ])
    · cases h
  | finish τ =>
    simp only [Threads.step] at h
    split at h
    · rename_i n a hτ
      cases h
      refine .entry _ rfl (.returned ?_ ?_ rfl)
      · rintro recorded rfl
        exact hc.threads τ n _ hτ c.state (Rely.refl _) trivial
      · intro e he hret
        exact hr τ e he hret _ hτ
    · cases h
      exact .nothing rfl rfl
    · cases h
  | outside x =>
    simp only [Threads.step] at h
    split at h
    · cases h
    · rename_i s new stops hx
      cases h
      cases x with
      | call request =>
        simp only [batch, outside] at hx
        split at hx
        · cases hx
          exact .nothing rfl rfl
        · cases hx
      | jobsFence fence | crash =>
        cases hx
        exact .nothing rfl rfl

variable {I : Registry → List Entry → Prop}

/-- **What every justified entry preserves, a run preserves.**  `Q` is the condition on the
steps of the run, and `G` what it says of an admission in a given history. -/
theorem run_invariant (hcalls : ∀ request, calls request = true → request.Within A)
    {G : List Entry → Nat → Mutation → Prop}
    (hQ : ∀ (c : BatchStore) (e : Turn Answer Event) τ answer m, e = .step τ answer → Q c e →
      action c e = some (.admission m) → G c.state.history τ m) (hstart : ∀ r, P r → I r [])
    (hstep : ∀ s t e, I s.registry s.history → Justified A (G s.history) s t e →
      I t.registry (s.history ++ [e])) (h : (batchMachine calls P).Reaches Q c) :
    I c.state.registry c.state.history := by
  refine Machine.reaches_induction (I := fun c => I c.state.registry c.state.history) ?_ ?_ h
  · rintro c ⟨⟨hs, hP⟩, -⟩
    rw [hs]
    exact hstart _ hP
  · intro c e d hc hI hQe hd
    have hadds : Adds A (G c.state.history) c.state d.state := by
      refine step_adds (verified hcalls hc) (returnedOver hcalls hc) ?_ hd
      intro τ answer m he ha
      exact hQ c e τ answer m he hQe ha
    cases hadds with
    | nothing hr hh =>
      rw [hr, hh]
      exact hI
    | entry e hh hj =>
      rw [hh]
      exact hstep c.state d.state e hI hj

/-- **What every justified entry preserves from some reached state on**, beside what holds
of every reached state. -/
theorem run_from (hcalls : ∀ request, calls request = true → request.Within A)
    {J : Registry → List Entry → Prop} {es : List (Turn Answer Event)}
    (hI : ∀ x : BatchStore, (batchMachine calls P).Reaches anyStep x →
      I x.state.registry x.state.history)
    (hstep : ∀ s t e, I s.registry s.history → J s.registry s.history →
      Justified A (fun _ _ => True) s t e → J t.registry (s.history ++ [e]))
    (h : (batchMachine calls P).Reaches anyStep c) (hJ : J c.state.registry c.state.history)
    (hrun : (batchMachine calls P).run c es = some d) : J d.state.registry d.state.history := by
  have hboth : (batchMachine calls P).Reaches anyStep d ∧ J d.state.registry d.state.history := by
    refine run_preserves (P := anyStep) (I := fun x => (batchMachine calls P).Reaches anyStep x ∧
      J x.state.registry x.state.history) ?_ ⟨h, hJ⟩
        ((batchMachine calls P).throughout_anyStep c es) hrun
    rintro x e y ⟨hx, hJx⟩ hP hy
    refine ⟨hx.step hP hy, ?_⟩
    have hadds := step_adds (G := fun _ _ => True) (verified hcalls hx) (returnedOver hcalls hx)
      (fun _ _ _ _ _ => trivial) hy
    cases hadds with
    | nothing hr hh =>
      rw [hr, hh]
      exact hJx
    | entry e hh hj =>
      rw [hh]
      exact hstep x.state y.state e (hI x hx) hJx hj
  exact hboth.2

theorem apply_mutation {m : Mutation} {epoch : Nat} {current : Registry}
    (h : (Closure.mutation m epoch).apply env current = .ok (value, next)) :
    current.factoryFence = "" ∧ current.resetEpoch = epoch ∧ next.resetEpoch = epoch ∧
      m.change env (trim current.jobs) = .ok (value, next.jobs) := by
  simp only [Closure.apply] at h
  split at h
  · cases h
  · rename_i hcurrent
    rw [not_or, not_not, not_not] at hcurrent
    cases hchange : m.change env (trim current.jobs) with
    | error e =>
      rw [hchange] at h
      cases h
    | ok changed =>
      rw [hchange] at h
      cases h
      exact ⟨hcurrent.1, hcurrent.2, hcurrent.2, rfl⟩

variable {ε : Type} {p : Value × Jobs} {jobs' : Jobs}

theorem ok_fst (h : (Except.ok p : Except ε (Value × Jobs)) = .ok (value, jobs')) :
    value = p.1 := by
  injection h with hp
  rw [hp]

theorem ok_snd (h : (Except.ok p : Except ε (Value × Jobs)) = .ok (value, jobs')) :
    jobs' = p.2 := by
  injection h with hp
  rw [hp]

theorem append_singleton_split {α : Type} {h h1 h2 : List α} {e x : α}
    (heq : h ++ [e] = h1 ++ x :: h2) :
    (h1 = h ∧ x = e ∧ h2 = []) ∨ ∃ h3, h2 = h3 ++ [e] ∧ h = h1 ++ x :: h3 := by
  rcases eq_nil_or_concat h2 with rfl | ⟨h3, y, rfl⟩
  · obtain ⟨rfl, hx⟩ := append_inj' heq rfl
    cases hx
    exact .inl ⟨rfl, rfl, rfl⟩
  · rw [concat_eq_append, ← List.cons_append, ← append_assoc] at heq
    obtain ⟨rfl, hy⟩ := append_inj' heq rfl
    cases hy
    exact .inr ⟨h3, concat_eq_append, rfl⟩

end AgenticKibana.Batch
