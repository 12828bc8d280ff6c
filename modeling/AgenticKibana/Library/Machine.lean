import Mathlib.Data.Option.Basic
import Mathlib.Data.List.Basic

/-!
# Labelled machines, their runs and their invariants

The step of a `Machine` is a partial *function*: everything that is not determined by the state
(which party moves, what a failing call answers, the clock, a fresh identifier) is carried by the
label, so a run is a list of labels and can be replayed by evaluation.  `Throughout P` says that
every step of a run meets `P`, and `Reaches P` collects the states that such runs reach.
-/

namespace AgenticKibana.Library

universe u v

/-- A machine: its start states and its step on a label, `none` where the label
is not enabled. -/
structure Machine (σ : Type u) (ε : Type v) where
  start : σ → Prop
  step : σ → ε → Option σ

namespace Machine

variable {σ : Type u} {ε : Type v}

/-- Replay a list of labels; `none` as soon as one of them is not enabled. -/
def run (M : Machine σ ε) : σ → List ε → Option σ
  | s, [] => some s
  | s, e :: es => (M.step s e).bind fun s' => run M s' es

/-- Every step the run takes meets `P`. -/
def Throughout (M : Machine σ ε) (P : σ → ε → Prop) : σ → List ε → Prop
  | _, [] => True
  | s, e :: es =>
    P s e ∧ match M.step s e with
      | none => True
      | some s' => Throughout M P s' es

/-- The states reached from a start state by runs whose steps all meet `P`. -/
def Reaches (M : Machine σ ε) (P : σ → ε → Prop) (s : σ) : Prop :=
  ∃ s0 es, M.start s0 ∧ M.Throughout P s0 es ∧ M.run s0 es = some s

/-- The condition every step meets: plain reachability is `Reaches anyStep`. -/
def anyStep (_ : σ) (_ : ε) : Prop := True

instance decidableThroughout (M : Machine σ ε) (P : σ → ε → Prop)
    [∀ s e, Decidable (P s e)] :
    (s : σ) → (es : List ε) → Decidable (M.Throughout P s es)
  | _, [] => isTrue trivial
  | s, e :: es =>
    match h : M.step s e with
    | none => decidable_of_iff (P s e) (by simp [Throughout, h])
    | some s' =>
      haveI := decidableThroughout M P s' es
      decidable_of_iff (P s e ∧ M.Throughout P s' es) (by simp [Throughout, h])

@[simp] theorem run_nil (M : Machine σ ε) (s : σ) : M.run s [] = some s := rfl

variable {M : Machine σ ε} {e : ε} {es : List ε} {s t : σ} {P : σ → ε → Prop} {I : σ → Prop}

theorem run_cons {s' : σ} :
    M.run s (e :: es) = some s' ↔ ∃ t, M.step s e = some t ∧ M.run t es = some s' := by
  simp [run, Option.bind_eq_some_iff]

theorem run_append (s : σ) (es fs : List ε) :
    M.run s (es ++ fs) = (M.run s es).bind fun t => M.run t fs := by
  induction es generalizing s with
  | nil => simp
  | cons e es ih =>
    simp only [List.cons_append, run]
    cases M.step s e with
    | none => rfl
    | some t => exact ih t

theorem throughout_cons (ht : M.step s e = some t) :
    M.Throughout P s (e :: es) ↔ P s e ∧ M.Throughout P t es := by
  simp [Throughout, ht]

theorem throughout_append {fs : List ε} (ht : M.run s es = some t) :
    M.Throughout P s (es ++ fs) ↔ M.Throughout P s es ∧ M.Throughout P t fs := by
  induction es generalizing s with
  | nil =>
    simp only [run_nil, Option.some.injEq] at ht
    subst ht
    simp [Throughout]
  | cons e es ih =>
    obtain ⟨u, hu, hrun⟩ := run_cons.mp ht
    rw [List.cons_append, throughout_cons hu, throughout_cons hu, ih hrun, and_assoc]

theorem throughout_anyStep (M : Machine σ ε) (s : σ) (es : List ε) :
    M.Throughout anyStep s es := by
  induction es generalizing s with
  | nil => trivial
  | cons e es ih =>
    refine ⟨trivial, ?_⟩
    cases M.step s e with
    | none => trivial
    | some t => exact ih t

variable {Q : σ → ε → Prop}

theorem Throughout.mono (hPQ : ∀ s e, P s e → Q s e) (h : M.Throughout P s es) :
    M.Throughout Q s es := by
  induction es generalizing s with
  | nil => trivial
  | cons e es ih =>
    obtain ⟨he, hes⟩ := h
    refine ⟨hPQ s e he, ?_⟩
    cases hstep : M.step s e with
    | none => trivial
    | some t =>
      rw [hstep] at hes
      exact ih hes

/-! ### Invariants -/

/-- **The induction over a run**: what every step meeting `P` preserves, a run
whose steps all meet `P` preserves. -/
theorem run_preserves
    (hstep : ∀ s e t, I s → P s e → M.step s e = some t → I t) (hI : I s)
    (hP : M.Throughout P s es)
    (hrun : M.run s es = some t) : I t := by
  induction es generalizing s with
  | nil =>
    simp only [run_nil, Option.some.injEq] at hrun
    exact hrun ▸ hI
  | cons e es ih =>
    obtain ⟨u, hu, hrest⟩ := run_cons.mp hrun
    obtain ⟨he, hes⟩ := (throughout_cons hu).mp hP
    exact ih (hstep s e u hI he hu) hes hrest

/-- A property of the start states that every step meeting `P` preserves holds
of every state reached under `P`. -/
theorem invariant (hstart : ∀ s, M.start s → I s)
    (hstep : ∀ s e t, I s → P s e → M.step s e = some t → I t) (h : M.Reaches P s) : I s := by
  obtain ⟨s0, es, hs0, hP, hrun⟩ := h
  exact run_preserves hstep (hstart s0 hs0) hP hrun

/-- Two conditions that agree in every state with `I` hold throughout the same runs, where the
steps that meet them keep `I`. -/
theorem throughout_congr (hiff : ∀ s e, I s → (P s e ↔ Q s e))
    (hstep : ∀ s e t, I s → Q s e → M.step s e = some t → I t) (hI : I s) :
    M.Throughout P s es ↔ M.Throughout Q s es := by
  induction es generalizing s with
  | nil => exact Iff.rfl
  | cons e es ih =>
    simp only [Throughout]
    apply and_congr_right_iff.mpr ?_ |>.trans (and_congr_left fun _ => hiff s e hI)
    intro hP
    cases hs : M.step s e with
    | none => exact Iff.rfl
    | some t => exact ih (hstep s e t hI ((hiff s e hI).mp hP) hs)

theorem Reaches.start (h : M.start s) :
    M.Reaches P s :=
  ⟨s, [], h, trivial, rfl⟩

theorem Reaches.step
    (h : M.Reaches P s) (hP : P s e) (ht : M.step s e = some t) : M.Reaches P t := by
  obtain ⟨s0, es, hs0, hall, hrun⟩ := h
  refine ⟨s0, es ++ [e], hs0, ?_, ?_⟩
  · exact (throughout_append hrun).mpr ⟨hall, hP, by rw [ht]; trivial⟩
  · rw [run_append, hrun]
    simp [run, ht]

theorem Reaches.run (h : M.Reaches anyStep s)
    (hrun : M.run s es = some t) : M.Reaches anyStep t := by
  obtain ⟨s0, fs, hs0, -, hfs⟩ := h
  refine ⟨s0, fs ++ es, hs0, M.throughout_anyStep _ _, ?_⟩
  rw [run_append, hfs]
  exact hrun

/-- Reachability under `P` as a least fixed point.  Unlike in `invariant`, the step case may use
that its state is reached. -/
theorem reaches_induction (hstart : ∀ s, M.start s → I s)
    (hstep : ∀ s e t, M.Reaches P s → I s → P s e → M.step s e = some t → I t)
    (h : M.Reaches P s) : I s := by
  have hboth : M.Reaches P s ∧ I s := by
    refine invariant (I := fun s => M.Reaches P s ∧ I s) ?_ ?_ h
    · intro s hs
      exact ⟨Reaches.start hs, hstart s hs⟩
    · intro s e t hs hP ht
      exact ⟨hs.1.step hP ht, hstep s e t hs.1 hs.2 hP ht⟩
  exact hboth.2

theorem reaches_of_run (M : Machine σ ε) (p : σ → Bool) (s0 : σ) (es : List ε)
    (hs0 : M.start s0) (h : (M.run s0 es).any p = true) :
    ∃ s, M.run s0 es = some s ∧ M.Reaches anyStep s ∧ p s = true := by
  cases hrun : M.run s0 es with
  | none => simp [hrun] at h
  | some s =>
    rw [hrun] at h
    exact ⟨s, rfl, ⟨s0, es, hs0, M.throughout_anyStep s0 es, hrun⟩, h⟩

def runChecked (M : Machine σ ε) (p : σ → ε → Bool) : σ → List ε → Option σ
  | s, [] => some s
  | s, e :: es => if p s e then (M.step s e).bind fun s' => runChecked M p s' es else none

theorem reaches_of_runChecked {p : σ → ε → Bool}
    (hp : ∀ s e, p s e = true → P s e) {q : σ → Bool} {s0 : σ} (hs0 : M.start s0)
    (h : (M.runChecked p s0 es).any q = true) : ∃ s, M.Reaches P s ∧ q s = true := by
  have hfrom : ∀ s, M.Reaches P s → (M.runChecked p s es).any q = true →
      ∃ t, M.Reaches P t ∧ q t = true := by
    clear h
    induction es with
    | nil =>
      intro s hs hq
      exact ⟨s, hs, hq⟩
    | cons e es ih =>
      intro s hs hq
      rw [runChecked] at hq
      split at hq
      · rename_i hok
        cases hstep : M.step s e with
        | none => simp [hstep] at hq
        | some t =>
          rw [hstep] at hq
          exact ih t (hs.step (hp s e hok) hstep) hq
      · cases hq
  exact hfrom s0 (Reaches.start hs0) h

end Machine

end AgenticKibana.Library
