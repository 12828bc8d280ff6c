import AgenticKibana.Ingest.HandleClusters

/-!
# The allowance of a tick

A call of `handle_clusters` is verified on its own accesses: it claims its allowance before each
investigation, investigates eligible clusters only, gives back every lock it took, and what it
counts of a cluster is what it did with it.  Then any number of calls that run at the same time
start no more investigations than the budget they share allows, and no call ever waits in vain.
-/

namespace AgenticKibana.Ingest

open AgenticKibana.Library AgenticKibana.Correlation List

abbrev Step : Type := Access Reply Shared

/-! ### What the accesses say -/

def holding (l : List Step) : Option String :=
  l.foldl (fun held x => match x.act with
    | .acquire signature => some signature
    | .release _ => none
    | _ => held) none

def granted : Step → Bool
  | ⟨_, .tryClaim, granted, _, _⟩ => granted
  | _ => false

def starts : Step → Bool
  | ⟨_, .investigate _, _, _, _⟩ => true
  | _ => false

def found : Step → Option (Cluster × FoundCase)
  | ⟨_, .find cluster, .ok (some case), _, _⟩ => some (cluster, case)
  | _ => none

def saved : Step → Option FoundCase
  | ⟨_, .save case, .ok _, _, _⟩ => some case
  | _ => none

def investigated : Step → Option Cluster
  | ⟨_, .investigate cluster, .ok _, _, _⟩ => some cluster
  | _ => none

def registered : Step → Option Cluster
  | ⟨_, .register cluster _, .ok _, _, _⟩ => some cluster
  | _ => none

/-- The cluster was attached to an open case: the case that was found has all of its events, or
the case with the others merged into it was saved. -/
def AttachedTo (l : List Step) (cluster : Cluster) : Prop :=
  ∃ x ∈ l, ∃ case, found x = some (cluster, case) ∧ ∃ now,
    (attachCluster now case.toOpenCase cluster).2 = false ∨
      ∃ y ∈ l, ∃ case', saved y = some case' ∧
        case'.toOpenCase = (attachCluster now case.toOpenCase cluster).1

variable {site : IngestSite} {call : Call} {τ : Nat} {l : List Step}

/-- **How a cluster ended is what was done with it.** -/
def Ended (site : IngestSite) (call : Call) (l : List Step) (cluster : Cluster) : Ending → Prop
  | .ignored => isIgnoredCluster cluster call.prefs = true
  | .suppressed => passesSuppression site cluster call.prefs = false
  | .attached _ => AttachedTo l cluster
  | .investigated => ∃ x ∈ l, investigated x = some cluster
  | .candidate _ => ∃ x ∈ l, registered x = some cluster

variable {cluster : Cluster} {l' : List Step} {ticks : Nat} {signature : String}

theorem Ended.mono {ending : Ending} (hsub : l ⊆ l')
    (h : Ended site call l cluster ending) : Ended site call l' cluster ending := by
  cases ending with
  | ignored | suppressed => exact h
  | attached capped =>
    obtain ⟨x, hx, case, hfound, now, hnew⟩ := h
    refine ⟨x, hsub hx, case, hfound, now, ?_⟩
    rcases hnew with hnone | ⟨y, hy, hsaved⟩
    · exact .inl hnone
    · exact .inr ⟨y, hsub hy, hsaved⟩
  | investigated | candidate capped =>
    obtain ⟨x, hx, hdone⟩ := h
    exact ⟨x, hsub hx, hdone⟩

/-! ### What becomes of a cluster that has an allowance -/

def refused : Step → Bool
  | ⟨_, .tryClaim, granted, _, _⟩ => !granted
  | _ => false

def Undecided (l : List Step) : Prop :=
  ∀ x ∈ l, ∀ cluster case, found x = some (cluster, case) → case.verdict = none

structure Room (call : Call) (investigations : Nat) (l : List Step) : Prop where
  shared : call.shared = true → ∀ x ∈ l, refused x = false
  alone : call.shared = false →
    (investigations : Int) ≤ max 1 call.prefs.maxAutoInvestigationsPerTick

theorem Undecided.anti (h : Undecided l') (hsub : l ⊆ l') : Undecided l :=
  fun x hx => h x (hsub hx)

theorem Room.anti {m n : Nat} (h : Room call n l') (hsub : l ⊆ l') (hle : m ≤ n) :
    Room call m l where
  shared hshared x hx := h.shared hshared x (hsub hx)
  alone halone := (Int.ofNat_le.mpr hle).trans (h.alone halone)

def forwards (site : IngestSite) (prefs : IngestPreferences) (cluster : Cluster) : Bool :=
  !isIgnoredCluster cluster prefs && passesSuppression site cluster prefs &&
    eligible site cluster prefs

def Settled (site : IngestSite) (prefs : IngestPreferences) (cluster : Cluster) : Ending → Prop
  | .ignored => isIgnoredCluster cluster prefs = true
  | .suppressed => isIgnoredCluster cluster prefs = false ∧
    passesSuppression site cluster prefs = false
  | .investigated => forwards site prefs cluster = true
  | .attached _ | .candidate _ => isIgnoredCluster cluster prefs = false ∧
    passesSuppression site cluster prefs = true ∧ eligible site cluster prefs = false

def Placed (site : IngestSite) (prefs : IngestPreferences) (cluster : Cluster) : Ending → Prop
  | .ignored | .suppressed => False
  | .investigated => eligible site cluster prefs = true
  | .attached _ | .candidate _ => eligible site cluster prefs = false

def HasRoom (site : IngestSite) (call : Call) (cluster : Cluster) (ticks : Nat) (l : List Step) :
    Prop :=
  eligible site cluster call.prefs = true → Room call (ticks + 1) l

theorem HasRoom.anti
    (h : HasRoom site call cluster ticks l') (hsub : l ⊆ l') : HasRoom site call cluster ticks l :=
  fun heligible => (h heligible).anti hsub (Nat.le_refl _)

/-! ### What a call knows when it acts -/

structure Knows (site : IngestSite) (call : Call) (l : List Step) (a : Act) : Prop where
  takes : ∀ signature, a = .acquire signature → holding l = none
  gives : ∀ signature, a = .release signature → holding l = some signature
  allowed : ∀ cluster, a = .investigate cluster → eligible site cluster call.prefs = true ∧
    (call.shared = true → l.countP starts < l.countP granted)

/-- Between two clusters: no lock, and as many investigations as claims. -/
structure Outside (call : Call) (l : List Step) : Prop where
  unlocked : holding l = none
  claims : call.shared = true → l.countP starts = l.countP granted

structure Inside (call : Call) (signature : String) (allowance : Nat) (l : List Step) : Prop where
  locked : holding l = some signature
  claims : call.shared = true → l.countP starts + allowance = l.countP granted

abbrev Known (site : IngestSite) (call : Call) (τ : Nat) {α : Type} (m : Prog α) (l : List Step)
    (Q : α → List Step → Prop) (E : Failure → List Step → Prop) : Prop :=
  Code.spec service τ (Knows site call) Q E m l

section Actions

variable {signature : String} {E : Failure → List Step → Prop} {a : Act}

theorem knows_other (hacquire : ∀ signature, a ≠ .acquire signature)
    (hrelease : ∀ signature, a ≠ .release signature)
    (hstart : ∀ cluster, a ≠ .investigate cluster) : Knows site call l a where
  takes signature h := absurd h (hacquire signature)
  gives signature h := absurd h (hrelease signature)
  allowed cluster h := absurd h (hstart cluster)

theorem holding_append (x : Step) : holding (l ++ [x]) = match x.act with
    | .acquire signature => some signature
    | .release _ => none
    | _ => holding l := by
  simp only [holding, foldl_append, foldl_cons, foldl_nil]

variable {x : Step} {cluster : Cluster} {Q : Unit → List Step → Prop} {case : FoundCase}

theorem Inside.append {allowance : Nat} (h : Inside call signature allowance l)
    (hlock : holding (l ++ [x]) = holding l) (hstart : starts x = false)
    (hgrant : granted x = false) :
    Inside call signature allowance (l ++ [x]) where
  locked := hlock.trans h.locked
  claims hshared := by
    have := h.claims hshared
    simp [countP_append, hstart, hgrant, this]

theorem Inside.spend (h : Inside call signature 1 l)
    (hlock : holding (l ++ [x]) = holding l) (hstart : starts x = true)
    (hgrant : granted x = false) :
    Inside call signature 0 (l ++ [x]) where
  locked := hlock.trans h.locked
  claims hshared := by
    have := h.claims hshared
    simp [countP_append, hstart, hgrant, this]

theorem known_attempt {α : Type} {Q : α → List Step → Prop} (g : Reply a → Except Failure α)
    (hP : Knows site call l a)
    (hinside : ∀ s t r, Inside call signature 0 (l ++ [⟨τ, a, r, s, t⟩]))
    (hok : ∀ s t r b, g r = .ok b → Inside call signature 0 (l ++ [⟨τ, a, r, s, t⟩]) →
      Q b (l ++ [⟨τ, a, r, s, t⟩])) (herr : ∀ e l', Inside call signature 0 l' → E e l') :
    Known site call τ (access a >>= fun r => ofExcept (g r)) l Q E := by
  refine spec_perform_bind hP fun answer s t r _ => ?_
  cases hg : g r with
  | ok b => exact hok s t r b hg (hinside s t r)
  | error e => exact herr e _ (hinside s t r)

variable (hl : Inside call signature 0 l)

include hl

theorem known_find {Q : Option FoundCase → List Step → Prop}
    (hok : ∀ x case, Inside call signature 0 (l ++ [x]) →
      (∀ c, case = some c → found x = some (cluster, c)) → Q case (l ++ [x]))
    (herr : ∀ e l', Inside call signature 0 l' → E e l') :
    Known site call τ (find cluster) l Q E := by
  refine known_attempt (a := .find cluster) id (knows_other (by simp) (by simp) (by simp))
    (fun s t r => hl.append (holding_append _) rfl rfl) ?_ herr
  rintro s t r case (rfl : r = .ok case) hx
  refine hok _ case hx ?_
  rintro c rfl
  rfl

theorem known_save
    (hok : ∀ x, Inside call signature 0 (l ++ [x]) → saved x = some case → Q () (l ++ [x]))
    (herr : ∀ e l', Inside call signature 0 l' → E e l') :
    Known site call τ (save case) l Q E := by
  refine known_attempt (a := .save case) id (knows_other (by simp) (by simp) (by simp))
    (fun s t r => hl.append (holding_append _) rfl rfl) ?_ herr
  rintro s t r b (rfl : r = .ok b) hx
  exact hok _ hx rfl

theorem known_register {reason : String}
    (hok : ∀ x, Inside call signature 0 (l ++ [x]) → registered x = some cluster → Q () (l ++ [x]))
    (herr : ∀ e l', Inside call signature 0 l' → E e l') :
    Known site call τ (register cluster reason) l Q E := by
  refine known_attempt (a := .register cluster reason) id
    (knows_other (by simp) (by simp) (by simp))
    (fun s t r => hl.append (holding_append _) rfl rfl) ?_ herr
  rintro s t r b (rfl : r = .ok b) hx
  exact hok _ hx rfl

omit hl in
theorem known_investigate
    (heligible : eligible site cluster call.prefs = true) (hl : Inside call signature 1 l)
    (hok : ∀ x, Inside call signature 0 (l ++ [x]) → investigated x = some cluster →
      Q () (l ++ [x]))
    (herr : ∀ e l', Inside call signature 0 l' → E e l') :
    Known site call τ (investigate cluster) l Q E := by
  have hknows : Knows site call l (.investigate cluster) := by
    refine ⟨by simp, by simp, ?_⟩
    rintro c h
    cases h
    refine ⟨heligible, fun hshared => ?_⟩
    have := hl.claims hshared
    omega
  refine known_attempt (a := .investigate cluster) id hknows
    (fun s t r => hl.spend (holding_append _) rfl rfl) ?_ herr
  rintro s t r b (rfl : r = .ok b) hx
  exact hok _ hx rfl

theorem known_attach {Q : Bool → List Step → Prop}
    (hok : ∀ attached l', Inside call signature 0 l' → l ⊆ l' →
      (∃ now, (attachCluster now case.toOpenCase cluster).2 = false ∨ ∃ y ∈ l', ∃ case',
        saved y = some case' ∧ case'.toOpenCase = (attachCluster now case.toOpenCase cluster).1) →
      Q attached l')
    (herr : ∀ e l', Inside call signature 0 l' → E e l') :
    Known site call τ (attach case cluster) l Q E := by
  refine spec_perform_bind (a := Act.isoNow) (knows_other (by simp) (by simp) (by simp)) ?_
  intro answer s t now _
  have hinside : Inside call signature 0 (l ++ [(⟨τ, .isoNow, now, s, t⟩ : Step)]) :=
    hl.append (holding_append _) rfl rfl
  refine spec_bind (spec_when ?_ ?_)
  · intro _
    refine known_save hinside ?_ herr
    intro x hx hsaved
    exact hok _ _ hx (fun y hy => mem_append_left _ (mem_append_left _ hy))
      ⟨now, .inr ⟨x, mem_append_right _ mem_cons_self, _, hsaved, rfl⟩⟩
  · intro hnone
    exact hok _ _ hinside (fun y hy => mem_append_left _ hy) ⟨now, .inl hnone⟩

theorem known_forward {Q : Bool → List Step → Prop}
    (hyes : ∀ l', Inside call signature 1 l' → l ⊆ l' → eligible site cluster call.prefs = true →
      Q true l') (hno : ∀ l', Inside call signature 0 l' → l ⊆ l' →
      (HasRoom site call cluster ticks l' → eligible site cluster call.prefs = false) →
      Q false l') : Known site call τ (forward site call cluster ticks) l Q E := by
  unfold forward
  by_cases heligible : eligible site cluster call.prefs = true
  · have hne : eligible site cluster call.prefs ≠ false := by simp [heligible]
    rw [if_neg hne]
    by_cases hshared : call.shared = true
    · rw [if_pos hshared]
      refine spec_perform (a := Act.tryClaim) (knows_other (by simp) (by simp) (by simp)) ?_
      intro answer s t claimed _
      have hlocked : holding (l ++ [(⟨τ, .tryClaim, claimed, s, t⟩ : Step)]) = some signature :=
        (holding_append _).trans hl.locked
      have hsub : l ⊆ l ++ [(⟨τ, .tryClaim, claimed, s, t⟩ : Step)] :=
        fun y hy => mem_append_left _ hy
      cases claimed with
      | true =>
        refine hyes _ ⟨hlocked, fun h => ?_⟩ hsub heligible
        have := hl.claims h
        have hgrant : granted (⟨τ, .tryClaim, true, s, t⟩ : Step) = true := rfl
        have hstart : starts (⟨τ, .tryClaim, true, s, t⟩ : Step) = false := rfl
        simp [countP_append, hgrant, hstart, this]
      | false =>
        refine hno _ (hl.append (holding_append _) rfl rfl) hsub fun hroom => ?_
        have hkept := (hroom heligible).shared hshared _ (mem_append_right _ mem_cons_self)
        cases hkept
    · rw [if_neg hshared]
      -- without the shared budget nothing is claimed
      have hboth : ∀ n, Inside call signature n l :=
        fun n => ⟨hl.locked, fun h => absurd h hshared⟩
      by_cases hroom : (ticks : Int) < max 1 call.prefs.maxAutoInvestigationsPerTick
      · rw [decide_eq_true hroom]
        exact hyes l (hboth 1) (List.Subset.refl l) heligible
      · rw [decide_eq_false hroom]
        refine hno l (hboth 0) (List.Subset.refl l) fun h => ?_
        have hfits := (h heligible).alone (by simpa using hshared)
        exact absurd (by push_cast at hfits; omega) hroom
  · have hne : eligible site cluster call.prefs = false := by simpa using heligible
    rw [if_pos hne]
    exact hno l hl (List.Subset.refl l) fun _ => hne

theorem known_refresh {Q : Ending → List Step → Prop} {capped : Bool} (hx : x ∈ l)
    (hfound : found x = some (cluster, case))
    (hok : ∀ l', Inside call signature 0 l' → l ⊆ l' → AttachedTo l' cluster →
      Q (.attached capped) l')
    (herr : ∀ e l', Inside call signature 0 l' → E e l') :
    Known site call τ (refresh site call case cluster capped) l Q E := by
  refine spec_bind (known_attach hl ?_ herr)
  intro attached l' hl' hsub ⟨now, hnew⟩
  have hattached : AttachedTo l' cluster := ⟨x, hsub hx, case, hfound, now, hnew⟩
  refine spec_bind (spec_when ?_ ?_)
  · intro _
    refine known_save hl' ?_ herr
    intro y hy _
    have hgrow : l' ⊆ l' ++ [y] := fun z hz => mem_append_left _ hz
    refine hok _ hy (fun z hz => hgrow (hsub hz)) ?_
    have hended : Ended site call l' cluster (.attached capped) := hattached
    exact hended.mono hgrow
  · intro _
    exact hok l' hl' hsub hattached

end Actions

theorem known_place (hl : Inside call signature 0 l) :
    Known site call τ (place site call cluster ticks) l
      (fun ending l' => Inside call signature 0 l' ∧ l ⊆ l' ∧ Ended site call l' cluster ending ∧
        (Undecided l' → HasRoom site call cluster ticks l' → Placed site call.prefs cluster ending))
      (fun _ l' => Inside call signature 0 l') := by
  refine spec_bind (known_find hl ?_ fun _ _ h => h)
  intro x existing hx hfound
  have hsub : l ⊆ l ++ [x] := fun y hy => mem_append_left _ hy
  have hmem : x ∈ l ++ [x] := mem_append_right _ mem_cons_self
  have hinvestigate : ∀ l', Inside call signature 1 l' → l ++ [x] ⊆ l' →
      eligible site cluster call.prefs = true →
      Known site call τ (do investigate cluster; pure Ending.investigated) l'
        (fun ending l' => Inside call signature 0 l' ∧ l ⊆ l' ∧ Ended site call l' cluster ending ∧
          (Undecided l' → HasRoom site call cluster ticks l' →
            Placed site call.prefs cluster ending))
        (fun _ l' => Inside call signature 0 l') := by
    intro l' hl' hsub' heligible
    refine spec_bind (known_investigate heligible hl' ?_ fun _ _ h => h)
    intro y hy hdone
    refine ⟨hy, fun z hz => mem_append_left _ (hsub' (hsub hz)), ?_, fun _ _ => heligible⟩
    exact ⟨y, mem_append_right _ mem_cons_self, hdone⟩
  cases existing with
  | some case =>
    by_cases hverdict : case.verdict.isSome = true
    · simp only [hverdict, if_true]
      refine spec_bind (known_attach hx ?_ fun _ _ h => h)
      intro attached l' hl' hsub' ⟨now, hnew⟩
      refine ⟨hl', fun z hz => hsub' (hsub hz), ?_, fun hundecided _ => ?_⟩
      · exact ⟨x, hsub' hmem, case, hfound case rfl, now, hnew⟩
      · have hnone := hundecided x (hsub' hmem) cluster case (hfound case rfl)
        simp [hnone] at hverdict
    · simp only [hverdict]
      refine spec_bind (known_forward hx ?_ ?_)
      · intro l' hl' hsub' heligible
        exact hinvestigate l' hl' hsub' heligible
      · intro l' hl' hsub' hroom
        refine known_refresh hl' (hsub' hmem) (hfound case rfl) ?_ fun _ _ h => h
        intro l'' hl'' hsub'' hattached
        exact ⟨hl'', fun z hz => hsub'' (hsub' (hsub hz)), hattached,
          fun _ h => hroom (h.anti hsub'')⟩
  | none =>
    refine spec_bind (known_forward hx ?_ ?_)
    · intro l' hl' hsub' heligible
      exact hinvestigate l' hl' hsub' heligible
    · intro l' hl' hsub' hroom
      refine spec_bind (known_register hl' ?_ fun _ _ h => h)
      intro y hy hdone
      refine ⟨hy, fun z hz => mem_append_left _ (hsub' (hsub hz)), ?_, fun _ h => ?_⟩
      · exact ⟨y, mem_append_right _ mem_cons_self, hdone⟩
      · exact hroom (h.anti fun z hz => mem_append_left _ hz)

theorem knows_release (h : holding l = some signature) :
    Knows site call l (.release signature) where
  takes _ heq := by cases heq
  gives _ heq := by
    cases heq
    exact h
  allowed _ heq := by cases heq

theorem knows_acquire (h : holding l = none) :
    Knows site call l (.acquire signature) where
  takes _ _ := h
  gives _ heq := by cases heq
  allowed _ heq := by cases heq

theorem Inside.release (h : Inside call signature 0 l) (s t : Shared) :
    Outside call (l ++ [(⟨τ, .release signature, (), s, t⟩ : Step)]) where
  unlocked := holding_append _
  claims hshared := by
    have := h.claims hshared
    have hstart : starts (⟨τ, .release signature, (), s, t⟩ : Step) = false := rfl
    have hgrant : granted (⟨τ, .release signature, (), s, t⟩ : Step) = false := rfl
    simp [countP_append, hstart, hgrant, ← this]

theorem known_locked (hl : Outside call l) :
    Known site call τ (locked cluster.signature (place site call cluster ticks)) l
      (fun ending l' => Outside call l' ∧ l ⊆ l' ∧ Ended site call l' cluster ending ∧
        (Undecided l' → HasRoom site call cluster ticks l' → Placed site call.prefs cluster ending))
      (fun _ l' => Outside call l') := by
  refine spec_perform_bind (a := Act.acquire cluster.signature) (knows_acquire hl.unlocked) ?_
  intro answer s t u _
  have hinside : Inside call cluster.signature 0
      (l ++ [(⟨τ, .acquire cluster.signature, u, s, t⟩ : Step)]) := by
    refine ⟨holding_append _, fun hshared => ?_⟩
    have := hl.claims hshared
    have hstart : starts (⟨τ, .acquire cluster.signature, u, s, t⟩ : Step) = false := rfl
    have hgrant : granted (⟨τ, .acquire cluster.signature, u, s, t⟩ : Step) = false := rfl
    simp [countP_append, hstart, hgrant, this]
  refine spec_bind (spec_orElse (spec_mono (known_place hinside) ?_ ?_))
  · rintro ending l' ⟨hl', hsub, hended, hplaced⟩
    refine spec_perform_bind (a := Act.release cluster.signature) (knows_release hl'.locked) ?_
    intro _ s' t' v _
    have hgrow : l' ⊆ l' ++ [(⟨τ, .release cluster.signature, v, s', t'⟩ : Step)] :=
      fun z hz => mem_append_left _ hz
    refine ⟨hl'.release s' t', fun z hz => hgrow (hsub (mem_append_left _ hz)),
      hended.mono hgrow, fun hundecided hroom => ?_⟩
    exact hplaced (hundecided.anti hgrow) (hroom.anti hgrow)
  · intro e l' hl'
    refine spec_perform_bind (a := Act.release cluster.signature) (knows_release hl'.locked) ?_
    intro _ s' t' v _
    exact hl'.release s' t'

/-- **The loop accounts for every cluster.** -/
theorem known_handle (clusters : List Cluster) (ticks : Nat) (stats : Stats)
    (hl : Outside call l) :
    Known site call τ (handle site call clusters ticks stats) l
      (fun stats' l' => Outside call l' ∧ l ⊆ l' ∧ ∃ endings,
        List.Forall₂ (Ended site call l') clusters endings ∧
        (Undecided l' → Room call (ticks + clusters.countP (forwards site call.prefs)) l' →
          List.Forall₂ (Settled site call.prefs) clusters endings) ∧
        stats' = endings.foldl Stats.count stats)
      (fun _ l' => Outside call l') := by
  induction clusters generalizing ticks stats l with
  | nil => exact ⟨hl, List.Subset.refl l, [], .nil, fun _ _ => .nil, rfl⟩
  | cons cluster rest ih =>
    -- the rest of the loop, after the cluster ended
    have hrest : ∀ ending l' ticks', Outside call l' → l ⊆ l' → Ended site call l' cluster ending →
        (Undecided l' → Room call (ticks + (cluster :: rest).countP (forwards site call.prefs)) l' →
          Settled site call.prefs cluster ending ∧
            ticks' ≤ ticks + if forwards site call.prefs cluster then 1 else 0) →
        Known site call τ (handle site call rest ticks' (stats.count ending)) l'
          (fun stats' l' => Outside call l' ∧ l ⊆ l' ∧ ∃ endings,
            List.Forall₂ (Ended site call l') (cluster :: rest) endings ∧
            (Undecided l' →
              Room call (ticks + (cluster :: rest).countP (forwards site call.prefs)) l' →
              List.Forall₂ (Settled site call.prefs) (cluster :: rest) endings) ∧
            stats' = endings.foldl Stats.count stats)
          (fun _ l' => Outside call l') := by
      intro ending l' ticks' hl' hsub hended hsettled
      refine spec_mono (ih ticks' (stats.count ending) hl') ?_ fun _ _ h => h
      rintro stats' l'' ⟨hl'', hsub', endings, hall, hrestSettled, rfl⟩
      refine ⟨hl'', fun z hz => hsub' (hsub hz), ending :: endings,
        .cons (hended.mono hsub') hall, fun hundecided hroom => ?_, rfl⟩
      obtain ⟨hone, hle⟩ := hsettled (hundecided.anti hsub') (hroom.anti hsub' (Nat.le_refl _))
      refine .cons hone (hrestSettled hundecided (hroom.anti (List.Subset.refl _) ?_))
      rw [countP_cons]
      omega
    unfold handle
    by_cases hignored : isIgnoredCluster cluster call.prefs = true
    · rw [if_pos hignored]
      exact hrest .ignored l ticks hl (List.Subset.refl l) hignored
        fun _ _ => ⟨hignored, Nat.le_add_right _ _⟩
    · rw [if_neg hignored]
      have hread : isIgnoredCluster cluster call.prefs = false := by simpa using hignored
      by_cases hsuppressed : passesSuppression site cluster call.prefs = false
      · rw [if_pos hsuppressed]
        exact hrest .suppressed l ticks hl (List.Subset.refl l) hsuppressed
          fun _ _ => ⟨⟨hread, hsuppressed⟩, Nat.le_add_right _ _⟩
      · rw [if_neg hsuppressed]
        have hpasses : passesSuppression site cluster call.prefs =
          true := by simpa using hsuppressed
        have hforwards : forwards site call.prefs cluster = eligible site cluster call.prefs := by
          simp [forwards, hread, hpasses]
        refine spec_bind (spec_mono (known_locked hl) ?_ fun _ _ h => h)
        rintro ending l' ⟨hl', hsub, hended, hplaced⟩
        refine hrest ending l' _ hl' hsub hended fun hundecided hroom => ?_
        have hone := hplaced hundecided fun heligible => by
          refine hroom.anti (List.Subset.refl _) ?_
          rw [countP_cons, hforwards, heligible, if_pos rfl]
          omega
        cases ending with
        | ignored | suppressed => exact hone.elim
        | attached capped => exact ⟨⟨hread, hpasses, hone⟩, by simp⟩
        | investigated =>
          have heligible : eligible site cluster call.prefs = true := hone
          exact ⟨hforwards.trans heligible, by simp [hforwards, heligible]⟩
        | candidate capped => exact ⟨⟨hread, hpasses, hone⟩, by simp⟩

theorem known_handleClusters (site : IngestSite) (τ : Nat) (call : Call) :
    Known site call τ (handleClusters site call) []
      (fun stats l => Outside call l ∧ ∃ endings,
        List.Forall₂ (Ended site call l) call.clusters endings ∧
        (Undecided l → Room call (call.clusters.countP (forwards site call.prefs)) l →
          List.Forall₂ (Settled site call.prefs) call.clusters endings) ∧
        stats = endings.foldl Stats.count { clusters := call.clusters.length })
      (fun _ l => Outside call l) := by
  refine spec_mono (known_handle call.clusters 0 _ ⟨rfl, fun _ => rfl⟩) ?_ fun _ _ h => h
  rintro stats l ⟨hl, -, hall⟩
  rw [Nat.zero_add] at hall
  exact ⟨hl, hall⟩

/-! ### Any number of calls -/

abbrev World : Type := Clients Reply Call Failure Stats Shared

variable {site : IngestSite} {limit : Int} {c : World}

section Serve

variable {τ : Nat} {a : Act} {answer : Answer} {s t : Shared} {r : Reply a}

theorem serve_acquire {signature : String} {r : Unit}
    (h : service.serve τ (.acquire signature) answer s = some (t, r)) :
    t = { s with locks := (signature, τ) :: s.locks } := by
  change (if _ then none else some _) = _ at h
  split at h
  · cases h
  · cases h
    rfl

theorem budget_of_serve (h : service.serve τ a answer s = some (t, r)) :
    granted ⟨τ, a, r, s, t⟩ = true ∧ s.budget.claimed < s.budget.limit ∧
        t.budget = { s.budget with claimed := s.budget.claimed + 1 } ∨
      granted ⟨τ, a, r, s, t⟩ = false ∧ t.budget = s.budget := by
  cases a with
  | acquire signature =>
    obtain rfl := serve_acquire h
    exact .inr ⟨rfl, rfl⟩
  | tryClaim =>
    cases h
    by_cases hfull : s.budget.limit ≤ s.budget.claimed
    · have hclaim : s.budget.tryClaim = (s.budget, false) := if_pos hfull
      exact .inr ⟨congrArg Prod.snd hclaim, congrArg Prod.fst hclaim⟩
    · have hclaim : s.budget.tryClaim =
          ({ s.budget with claimed := s.budget.claimed + 1 }, true) := if_neg hfull
      exact .inl ⟨congrArg Prod.snd hclaim, by omega, congrArg Prod.fst hclaim⟩
  | release _ | find _ | isoNow | save _ | investigate _ | register _ _ =>
    cases h
    exact .inr ⟨rfl, rfl⟩

theorem locks_of_serve (h : service.serve τ a answer s = some (t, r)) :
    (∃ signature, a = .acquire signature ∧ t.locks = (signature, τ) :: s.locks) ∨
      (∃ signature, a = .release signature ∧
        t.locks = s.locks.filter fun l => l ≠ (signature, τ)) ∨
      t.locks = s.locks ∧ ∀ l : List Step, holding (l ++ [⟨τ, a, r, s, t⟩]) = holding l := by
  cases a with
  | acquire signature =>
    obtain rfl := serve_acquire h
    exact .inl ⟨signature, rfl, rfl⟩
  | release signature =>
    cases h
    exact .inr (.inl ⟨signature, rfl, rfl⟩)
  | find _ | tryClaim | isoNow | save _ | investigate _ | register _ _ =>
    cases h
    exact .inr (.inr ⟨rfl, fun l => holding_append _⟩)

theorem serves (τ : Nat) (a : Act) (s : Shared)
    (h : ∀ signature, a = .acquire signature → (s.locks.any fun l => l.1 = signature) = false) :
    ∃ answer t, ∃ r : Reply a, service.serve τ a answer s = some (t, r) := by
  cases a with
  | acquire signature =>
    have hfree : ¬ (s.locks.any fun l => decide (l.1 = signature)) = true := by
      simp [h signature rfl]
    exact ⟨{}, _, (), if_neg hfree⟩
  | release _ | find _ | tryClaim | isoNow | save _ | investigate _ | register _ _ =>
    exact ⟨{}, _, _, rfl⟩

end Serve

structure Charged (limit : Int) (trace : List Step) (s : Shared) : Prop where
  claimed : trace.countP granted = s.budget.claimed
  limit : s.budget.limit = limit.toNat
  bounded : s.budget.claimed ≤ s.budget.limit

section

variable (h : (machine site limit).Reaches SharesBudget c)

include h

theorem charged_of_reaches : Charged limit c.trace c.state := by
  refine Service.trace_induction (I := Charged limit) (known_handleClusters site) ?_ ?_ h
  · rintro s rfl
    exact ⟨rfl, rfl, Nat.zero_le _⟩
  · intro c τ answer n a k t r _ hI _ _ _ hserve
    have hclaimed := hI.claimed
    rcases budget_of_serve hserve with ⟨hgranted, hroom, hbudget⟩ | ⟨hdenied, hbudget⟩
    · refine ⟨?_, by rw [hbudget]; exact hI.limit, by rw [hbudget]; exact hroom⟩
      rw [hbudget]
      simp [countP_append, hgranted, hclaimed]
    · refine ⟨?_, by rw [hbudget]; exact hI.limit, by rw [hbudget]; exact hI.bounded⟩
      rw [hbudget]
      simp [countP_append, hdenied, hclaimed]

theorem shared_of_reaches : ∀ p ∈ c.clients, p.1.shared = true :=
  Service.names_of_reaches (N := fun call : Call => call.shared = true) (fun _ _ hstart => hstart) h

theorem own_starts_le (τ : Nat) :
    (own τ c.trace).countP starts ≤ (own τ c.trace).countP granted := by
  refine Machine.reaches_induction (I := fun c : World =>
    ∀ τ, (own τ c.trace).countP starts ≤ (own τ c.trace).countP granted) ?_ ?_ h τ
  · rintro c ⟨-, -, htrace⟩ τ
    simp [htrace]
  · intro c e d hc hI _ hstep τ
    rcases Service.step_cases hstep with ⟨n, -, rfl⟩ | ⟨i, answer, n, a, k, t, r, -, hi, -, rfl⟩
    · exact hI τ
    · have hknows := ((Service.kept_of_reaches (known_handleClusters site) hc).spec i n _ hi).1
      have hshared := shared_of_reaches hc (n, .act a k) (mem_of_getElem? hi)
      rw [own_append]
      by_cases hτ : i = τ
      · subst hτ
        rw [if_pos rfl, countP_append, countP_append]
        have hle := hI i
        by_cases hstart : starts (⟨i, a, r, c.state, t⟩ : Step) = true
        · have hlt : (own i c.trace).countP starts < (own i c.trace).countP granted := by
            cases a with
            | investigate cluster => exact (hknows.allowed cluster rfl).2 hshared
            | acquire _ | release _ | find _ | tryClaim | isoNow | save _ | register _ _ =>
              cases hstart
          simp only [countP_singleton, hstart, if_true]
          omega
        · simp only [countP_singleton, hstart, Bool.false_eq_true, if_false]
          omega
      · rw [if_neg hτ, append_nil]
        exact hI τ

def Held (trace : List Step) (s : Shared) : Prop :=
  ∀ l ∈ s.locks, holding (own l.2 trace) = some l.1

theorem held_of_reaches : Held c.trace c.state := by
  refine Service.trace_induction (I := Held) (known_handleClusters site) ?_ ?_ h
  · rintro s rfl l hl
    cases hl
  · intro c τ answer n a k t r _ hI _ hknows _ hserve l hl
    rw [own_append]
    rcases locks_of_serve hserve with ⟨signature, rfl, hlocks⟩ | ⟨signature, rfl, hlocks⟩ |
      ⟨hlocks, hsame⟩
    · rw [hlocks] at hl
      rcases mem_cons.mp hl with rfl | hold
      · rw [if_pos rfl]
        exact holding_append _
      · have hne : τ ≠ l.2 := by
          intro heq
          have hnone := hknows.takes signature rfl
          rw [heq, hI l hold] at hnone
          cases hnone
        rw [if_neg hne, append_nil]
        exact hI l hold
    · rw [hlocks] at hl
      obtain ⟨hold, hother⟩ := mem_filter.mp hl
      have hne : τ ≠ l.2 := by
        intro heq
        have hmine := hknows.gives signature rfl
        rw [heq, hI l hold, Option.some.injEq] at hmine
        have hpair : l = (signature, τ) := Prod.ext hmine heq.symm
        simp [hpair] at hother
      rw [if_neg hne, append_nil]
      exact hI l hold
    · rw [hlocks] at hl
      by_cases hτ : τ = l.2
      · rw [if_pos hτ, hsame]
        exact hI l hl
      · rw [if_neg hτ, append_nil]
        exact hI l hl

omit h in
theorem steps_of_serves {n : Call} {a : Act} {k : Reply a → Prog Stats}
    (hτ : c.clients[τ]? = some (n, .act a k))
    (h : ∃ answer t, ∃ r : Reply a, service.serve τ a answer c.state = some (t, r)) :
    ∃ d, service.Steps (handleClusters site) d c := by
  obtain ⟨answer, t, r, hserve⟩ := h
  refine ⟨⟨t, c.clients.set τ (n, k r), c.trace ++ [⟨τ, a, r, c.state, t⟩]⟩, τ, answer, ?_⟩
  simp only [Service.step, hτ, hserve]

/-- **No call waits in vain**: as long as one has not ended, one can go on. -/
theorem exists_step (hleft : ∃ p ∈ c.clients, p.2.ended = false) :
    ∃ d, service.Steps (handleClusters site) d c := by
  have hkept := Service.kept_of_reaches (known_handleClusters site) h
  obtain ⟨⟨n, m⟩, hmem, hended⟩ := hleft
  obtain ⟨τ, hτ⟩ := mem_iff_getElem?.mp hmem
  cases m with
  | ret a | raise e => cases hended
  | act a k =>
    by_cases hwait : ∃ signature, a = .acquire signature ∧
        (c.state.locks.any fun l => decide (l.1 = signature)) = true
    · -- the one that holds the lock is under way, and does not wait for a lock itself
      obtain ⟨signature, -, hheld⟩ := hwait
      obtain ⟨⟨s, i⟩, hlock, -⟩ := List.any_eq_true.mp hheld
      have hholds := held_of_reaches h (s, i) hlock
      cases hi : c.clients[i]? with
      | none =>
        have hnone : own i c.trace = [] := by
          apply filter_eq_nil_iff.mpr
          intro x hx heq
          have hlt := hkept.bound x hx
          rw [beq_iff_eq.mp heq] at hlt
          rw [List.getElem?_eq_none_iff] at hi
          omega
        rw [hnone] at hholds
        cases hholds
      | some p =>
        obtain ⟨n', m'⟩ := p
        have hspec := hkept.spec i n' m' hi
        cases m' with
        | ret stats =>
          have hnone := hspec.1.unlocked
          rw [hholds] at hnone
          cases hnone
        | raise e =>
          have hnone := Outside.unlocked hspec
          rw [hholds] at hnone
          cases hnone
        | act a' k' =>
          refine steps_of_serves hi (serves i a' c.state ?_)
          intro signature' ha'
          have hnone := hspec.1.takes signature' ha'
          rw [hholds] at hnone
          cases hnone
    · refine steps_of_serves hτ (serves τ a c.state ?_)
      intro signature ha
      by_contra hne
      exact hwait ⟨signature, ha, by simpa using hne⟩

end

def Stats.total (stats : Stats) : Nat :=
  stats.investigated + stats.candidates + stats.attached + stats.suppressed + stats.ignored

theorem total_foldl (endings : List Ending) (stats : Stats) :
    (endings.foldl Stats.count stats).total = stats.total + endings.length := by
  induction endings generalizing stats with
  | nil => rfl
  | cons ending rest ih =>
    have hone : (stats.count ending).total = stats.total + 1 := by
      cases ending <;> simp only [Stats.count, Stats.total] <;> omega
    rw [foldl_cons, ih, hone, length_cons]
    omega

/-! ### The allowance -/

/-- A cluster got what it was due: a case it was attached to, an investigation, or its place as a
candidate. -/
def Served (l : List Step) (cluster : Cluster) : Prop :=
  AttachedTo l cluster ∨ (∃ x ∈ l, investigated x = some cluster) ∨
    ∃ x ∈ l, registered x = some cluster

/-- **The calls stay within their allowance.** -/
structure WithinAllowance (site : IngestSite) (limit : Int) (c : World) : Prop where
  /-- the investigations that were started -/
  investigations : c.trace.countP starts ≤ limit.toNat
  /-- none of a cluster that may not be investigated -/
  eligible : ∀ x ∈ c.trace, ∀ cluster, x.act = .investigate cluster →
    ∃ call m, c.clients[x.thread]? = some (call, m) ∧ MayInvestigate site cluster call.prefs
  /-- what a call that returned did with its clusters -/
  served : ∀ τ call stats, c.clients[τ]? = some (call, .ret stats) → ∀ cluster ∈ call.clusters,
    isIgnoredCluster cluster call.prefs = false → passesSuppression site cluster call.prefs = true →
    Served (own τ c.trace) cluster
  /-- and that it counted it -/
  counts : ∀ τ call stats, c.clients[τ]? = some (call, .ret stats) →
    stats.total = call.clusters.length ∧ ∃ endings,
      List.Forall₂ (Ended site call (own τ c.trace)) call.clusters endings ∧
        stats = endings.foldl Stats.count { clusters := call.clusters.length }
  /-- every call comes to its end -/
  finishes : ∃ moves d, (machine site limit).run c moves = some d ∧
    ∀ p ∈ d.clients, p.2.ended = true

/-- **Automatic investigation stays within its allowance**, in every interleaving of calls that
share one budget. -/
theorem automatic_investigation_within_allowance (site : IngestSite) (limit : Int) (c : World)
    (h : (machine site limit).Reaches SharesBudget c) : WithinAllowance site limit c := by
  have hcharged := charged_of_reaches h
  have hreturned : ∀ τ call stats, c.clients[τ]? = some (call, .ret stats) → ∃ endings,
      List.Forall₂ (Ended site call (own τ c.trace)) call.clusters endings ∧
        stats = endings.foldl Stats.count { clusters := call.clusters.length } := by
    intro τ call stats hτ
    obtain ⟨-, endings, hended, -, hstats⟩ :=
      (Service.kept_of_reaches (known_handleClusters site) h).spec τ call _ hτ
    exact ⟨endings, hended, hstats⟩
  refine ⟨?_, ?_, ?_, ?_, ?_⟩
  · calc c.trace.countP starts
        ≤ c.trace.countP granted := countP_le_of_own (own_starts_le h)
      _ = c.state.budget.claimed := hcharged.claimed
      _ ≤ c.state.budget.limit := hcharged.bounded
      _ = limit.toNat := hcharged.limit
  · intro x hx cluster hact
    obtain ⟨call, m, l, hcall, hknows⟩ :=
      Service.known_of_reaches (known_handleClusters site) h x hx
    exact ⟨call, m, hcall, eligible_iff.mp (hknows.allowed cluster hact).1⟩
  · intro τ call stats hτ cluster hcluster hignored hpasses
    obtain ⟨endings, hall, -⟩ := hreturned τ call stats hτ
    obtain ⟨i, hi⟩ := List.mem_iff_getElem?.mp hcluster
    obtain ⟨hlt, hget⟩ := List.getElem?_eq_some_iff.mp hi
    have hlt' : i < endings.length := hall.length_eq ▸ hlt
    have hended := hall.get hlt hlt'
    rw [List.get_eq_getElem, hget] at hended
    cases hending : endings.get ⟨i, hlt'⟩ with
    | ignored =>
      rw [hending] at hended
      exact absurd hended (by simp [Ended, hignored])
    | suppressed =>
      rw [hending] at hended
      exact absurd hended (by simp [Ended, hpasses])
    | attached capped =>
      rw [hending] at hended
      exact .inl hended
    | investigated =>
      rw [hending] at hended
      exact .inr (.inl hended)
    | candidate capped =>
      rw [hending] at hended
      exact .inr (.inr hended)
  · intro τ call stats hτ
    obtain ⟨endings, hall, hstats⟩ := hreturned τ call stats hτ
    refine ⟨?_, endings, hall, hstats⟩
    rw [hstats, total_foldl, hall.length_eq]
    exact Nat.zero_add _
  · exact Service.exists_finished (fun _ _ _ => trivial) (fun _ hc => exists_step hc) h

def plainSite : IngestSite := ⟨fun _ => "", id, fun _ _ => 0⟩

def alertCluster (signature : String) : Cluster where
  signature := signature
  legacySignature := none
  entity := (.host, signature)
  groupBy := .host
  ruleValues := []
  memberEventIds := []
  memberEventKeys := []
  memberEvents := []
  firstSeenMillis := 0
  lastSeenMillis := 0
  count := 0
  triggerReason := none
  sourceId := none
  sourceName := none
  isAlert := true
  sourceIds := []
  autoInvestigateEligible := true
  feedIds := []

def inTurns : List (Move Call Answer) :=
  [.start ⟨[alertCluster "a"], {}, true⟩, .start ⟨[alertCluster "b"], {}, true⟩] ++
    (List.range 5).flatMap fun _ => [.step 0 {}, .step 1 {}]

/-- What the two calls of `inTurns` come to. -/
def oneEach (c : World) : Bool :=
  match c.clients with
  | [(_, .ret s), (_, .ret t)] =>
    s = { clusters := 1, investigated := 1 } ∧ t = { clusters := 1, candidates := 1, deferred := 1 }
  | _ => false

def startsShared (_ : World) : Move Call Answer → Bool
  | .start call => call.shared
  | .step _ _ => true

theorem sharesBudget_of_startsShared (c : World) (e : Move Call Answer)
    (h : startsShared c e = true) : SharesBudget c e := by
  cases e with
  | start call => exact h
  | step τ answer => trivial

/-- One of two eligible clusters is investigated, the other waits as a candidate. -/
theorem two_calls_one_allowance :
    ∃ c : World, oneEach c = true ∧ WithinAllowance plainSite 1 c := by
  have hstart : (machine plainSite 1).start ⟨{ budget := .ofLimit 1 }, [], []⟩ := ⟨rfl, rfl, rfl⟩
  have hrun : ((machine plainSite 1).runChecked startsShared ⟨{ budget := .ofLimit 1 }, [], []⟩
      inTurns).any oneEach = true := by decide
  obtain ⟨c, hc, hend⟩ := Machine.reaches_of_runChecked sharesBudget_of_startsShared hstart hrun
  exact ⟨c, hend, automatic_investigation_within_allowance plainSite 1 c hc⟩

end AgenticKibana.Ingest
