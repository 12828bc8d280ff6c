import AgenticKibana.Batch.RowMoves
import AgenticKibana.Batch.Reset

/-!
# Batch results are folded exactly once

The store with the calls of result folding only, any number of them and on any jobs.  A result
that is retrieved stays so until its row is compacted, and a compacted row tracks nothing again;
so a lease is finalised for a result at most once, and only the call that finalised it hands the
result back.
-/

namespace AgenticKibana.Batch

open AgenticKibana.Library Machine Threads List

/-! ### What lasts -/

/-- Nothing is left of an entry that anything could be done with. -/
structure Blank (e : Tracking) : Prop where
  unretrieved : e.isRetrieved = false
  unleased : e.recordingToken = none
  unclaimed : e.reentryToken = none

theorem blank_empty : Blank {} := ⟨rfl, rfl, rfl⟩

def settled (closed : Bool) (e : Tracking) : Prop :=
  e.isRetrieved = true ∨ (closed = true ∧ Blank e)

def completed (closed : Bool) (e : Tracking) : Prop :=
  (e.isRetrieved = true ∧ e.reentryState = some "complete" ∧ e.reentryToken = none) ∨
    (closed = true ∧ Blank e)

/-- An entry as the store writes it: a re-entry is of a retrieved result, and a complete one
has no lease. -/
def wellKept (_closed : Bool) (e : Tracking) : Prop :=
  (e.reentryToken ≠ none ∨ e.reentryState = some "complete" → e.isRetrieved = true) ∧
    (e.reentryState = some "complete" → e.reentryToken = none)

theorem Blank.stays {final : Prop} {e e' : Tracking} (hb : Blank e)
    (h : EntryMove True final e e') : False := by
  cases h with
  | leased opened => exact opened trivial
  | ledgerFailed held | finalised _ held => simp [hb.unleased] at held
  | claimed retrieved => simp [hb.unretrieved] at retrieved
  | reentryFailed held | completed held => simp [hb.unclaimed] at held

theorem stable_settled (final : Prop) : Stable final settled where
  entry := by
    rintro closed e e' hmove (hretrieved | ⟨hclosed, hblank⟩)
    · refine .inl ?_
      cases hmove with
      | leased _ unretrieved | ledgerFailed _ unretrieved | finalised _ _ unretrieved =>
        simp [hretrieved] at unretrieved
      | claimed | reentryFailed | completed => exact hretrieved
    · subst hclosed
      exact (hblank.stays (by simpa using hmove)).elim
  scrub := fun _ _ => .inr ⟨rfl, blank_empty⟩

theorem stable_completed (final : Prop) : Stable final completed where
  entry := by
    rintro closed e e' hmove (⟨hretrieved, hstate, htoken⟩ | ⟨hclosed, hblank⟩)
    · refine .inl ?_
      cases hmove with
      | leased _ unretrieved | ledgerFailed _ unretrieved | finalised _ _ unretrieved =>
        simp [hretrieved] at unretrieved
      | claimed _ open_ => exact absurd hstate open_
      | reentryFailed held | completed held => simp [htoken] at held
    · subst hclosed
      exact (hblank.stays (by simpa using hmove)).elim
  scrub := fun _ _ => .inr ⟨rfl, blank_empty⟩

theorem stable_wellKept (final : Prop) : Stable final wellKept where
  entry := by
    rintro closed e e' hmove ⟨hretrieved, htoken⟩
    cases hmove with
    | leased | ledgerFailed => exact ⟨hretrieved, htoken⟩
    | finalised _ _ _ reentry_ne => exact ⟨fun _ => rfl, fun heq => absurd heq reentry_ne⟩
    | claimed retrieved => exact ⟨fun _ => retrieved, fun heq => by simp at heq⟩
    | reentryFailed held => exact ⟨fun heq => by simp [Tracking.unclaimed] at heq, fun _ => rfl⟩
    | completed held => exact ⟨fun _ => hretrieved (.inl (by simp [held])), fun _ => rfl⟩
  scrub := fun _ _ => ⟨fun heq => by simp at heq, fun _ => rfl⟩

theorem stable_closed (final : Prop) : Stable final fun closed _ => closed = true where
  entry := fun _ _ _ _ hclosed => hclosed
  scrub := fun _ _ => rfl

theorem stable_unretrieved : Stable False fun _ e => e.isRetrieved = false where
  entry := by
    intro closed e e' hmove hun
    cases hmove with
    | leased | ledgerFailed => exact hun
    | finalised may => exact may.elim
    | claimed retrieved => simp [hun] at retrieved
    | reentryFailed | completed => exact hun
  scrub := fun _ _ => rfl

/-! ### The closures of result folding -/

def foldingCalls : Request → Bool
  | .processResults .. | .claimReentries .. | .failReentry .. | .completeReentry .. => true
  | _ => false

def Closure.folds : Closure → Prop
  | .mutation m _ => m.folds = true
  | _ => False

theorem within_folds (request : Request) (h : foldingCalls request = true) :
    request.Within Closure.folds := by
  cases request with
  | processResults => exact ⟨fun _ _ _ => rfl, fun _ _ _ _ => rfl, fun _ _ _ _ => rfl⟩
  | claimReentries => exact fun _ _ _ => rfl
  | failReentry | completeReentry => exact fun _ => rfl
  | _ => cases h

def Closure.finalises : Closure → Option (String × String)
  | .mutation m _ => m.finalises
  | _ => none

variable {jobId : String}

theorem onJob_done {jobs : Jobs} {f : BatchJob → Option BatchJob}
    (h : Store.done (onJob jobs jobId f).1 = true) :
    ∃ job job', jobs.get? jobId = some job ∧ f job = some job' ∧
      (onJob jobs jobId f).2 = jobs.set jobId job' := by
  unfold onJob at h ⊢
  split at h
  · cases h
  · rename_i job hjob
    split at h
    · cases h
    · rename_i job' hjob'
      exact ⟨job, job', hjob, hjob', rfl⟩

theorem onLeases_granted (jobs : Jobs) (jobId : String) (refuses : BatchJob → Bool)
    (f : BatchJob → Dict String Tracking × Dict String String) :
    Store.granted (onLeases jobs jobId refuses f).1 = Dict.empty ∨
      ∃ job, jobs.get? jobId = some job ∧ refuses job = false ∧
        Store.granted (onLeases jobs jobId refuses f).1 = (f job).2 := by
  unfold onLeases
  split
  · exact .inl rfl
  · rename_i job hjob
    split
    · exact .inl rfl
    · rename_i hrefuses
      dsimp only
      split
      · exact .inl rfl
      · exact .inr ⟨job, hjob, by simpa using hrefuses, rfl⟩

section Closures

variable {env : Env} {c : Closure} {current next : Registry} {value : Value}

/-- **What a closure of result folding does to a row.** -/
theorem closure_evolves (hc : c.folds) (hk : Keyed current.jobs)
    (h : c.apply env current = .ok (value, next)) (id cid : String) :
    Evolves cid (c.finalises = some (id, cid)) (current.jobs.get? id) (next.jobs.get? id) := by
  cases c with
  | mutation m epoch =>
    obtain ⟨-, -, -, hchange⟩ := apply_mutation h
    exact (trim_evolves hk id).trans (change_evolves hc hchange)
  | _ => exact hc.elim

theorem closure_keyed (hc : c.folds) (hk : Keyed current.jobs)
    (h : c.apply env current = .ok (value, next)) : Keyed next.jobs := by
  intro id job hjob
  have hevolves := closure_evolves hc hk h id ""
  rw [hjob] at hevolves
  generalize hrow : current.jobs.get? id = row at hevolves
  cases hevolves with
  | kept moves =>
    rename_i job0
    have hid : job.id = job0.id := by
      clear hjob
      induction moves with
      | refl => rfl
      | tail _ hmove ih => exact hmove.id_eq.trans ih
    exact hid.trans (hk id job0 hrow)

variable {jobId : String} {epoch : Nat}

theorem finalise_settles {cid token state : String}
    (h : (Closure.mutation (.finalizeLease jobId cid token state) epoch).apply env current =
      .ok (value, next)) (hdone : Store.done value = true) (hk : Keyed current.jobs) :
    ¬ OnRow settled cid (current.jobs.get? jobId) ∧ OnRow settled cid (next.jobs.get? jobId) := by
  obtain ⟨-, -, -, hchange⟩ := apply_mutation h
  have htrim : Evolves cid False (current.jobs.get? jobId) ((trim current.jobs).get? jobId) :=
    trim_evolves hk jobId
  rw [ok_fst hchange] at hdone
  rw [ok_snd hchange]
  obtain ⟨job, job', hjob, hfinal, hnext⟩ := onJob_done hdone
  obtain ⟨hheld, hun⟩ := finalize_held hfinal
  refine ⟨?_, ?_⟩
  · intro hsettled
    rcases (stable_settled False).evolves htrim hsettled job hjob with hretrieved | ⟨-, hblank⟩
    · simp [hun] at hretrieved
    · simp [hblank.unleased] at hheld
  · rw [hnext, Dict.get?_set_self]
    intro job'' heq
    cases heq
    obtain ⟨recorded, -, -, hids, hjob'⟩ := finalize_eq hfinal
    have hretrieved : (recorded.entry cid).isRetrieved = true := by
      unfold BatchJob.entry
      rw [hids, Dict.get?_set_self]
      rfl
    rcases hjob' with rfl | rfl
    · exact .inl hretrieved
    · rcases compactTerminal_cases recorded with hsame | ⟨-, -, hclosed, hentry⟩
      · rw [hsame]
        exact .inl hretrieved
      · rw [hclosed, hentry cid]
        exact .inr ⟨rfl, blank_empty⟩

variable {nowMs : Nat}

theorem leaseClaim_closed {states : Dict String String}
    (h : (Closure.mutation (.leaseClaim jobId states nowMs) epoch).apply env current =
      .ok (value, next)) (hk : Keyed current.jobs)
    (hclosed : OnRow (fun closed _ => closed = true) "" (current.jobs.get? jobId)) :
    Store.granted value = Dict.empty := by
  obtain ⟨-, -, -, hchange⟩ := apply_mutation h
  rw [ok_fst hchange]
  rcases onLeases_granted _ jobId (·.terminalCompacted) _ with hnone | ⟨job, hjob, hopen, -⟩
  · exact hnone
  · have hjobClosed : job.terminalCompacted = true :=
      (stable_closed False).evolves (trim_evolves hk jobId) hclosed job hjob
    rw [hjobClosed] at hopen
    cases hopen

theorem claimReentries_completed {cid : String} {wanted : List String}
    (h : (Closure.mutation (.claimReentries jobId wanted nowMs) epoch).apply env current =
      .ok (value, next)) (hk : Keyed current.jobs)
    (hcomplete : OnRow completed cid (current.jobs.get? jobId)) :
    (Store.granted value).contains cid = false := by
  obtain ⟨-, -, -, hchange⟩ := apply_mutation h
  rw [ok_fst hchange]
  rcases onLeases_granted (trim current.jobs) jobId (fun _ => false) fun job =>
      claimEntries env.uuid nowMs job.candidates wanted 0 job.customIds Dict.empty with
    hnone | ⟨job, hjob, -, hgranted⟩
  · rw [hnone]
    rfl
  · rw [hgranted, Bool.eq_false_iff]
    intro hcid
    rcases claimEntries_granted hcid with hold | ⟨hretrieved, hstate⟩
    · cases hold
    · rcases (stable_completed False).evolves (trim_evolves hk jobId) hcomplete job hjob with
        ⟨-, hstate', -⟩ | ⟨-, hblank⟩
      · exact hstate hstate'
      · have hun : (entryIn job.customIds cid).isRetrieved = false := hblank.unretrieved
        simp [hun] at hretrieved

end Closures

/-! ### What a run keeps -/

def Retrieved (r : Registry) (jobId cid : String) : Prop :=
  ∃ job, r.jobs.get? jobId = some job ∧ (job.entry cid).isRetrieved = true

def Compacted (r : Registry) (jobId : String) : Prop :=
  OnRow (fun closed _ => closed = true) "" (r.jobs.get? jobId)

def ReentryComplete (r : Registry) (jobId cid : String) : Prop :=
  ∃ job, r.jobs.get? jobId = some job ∧ (job.entry cid).reentryState = some "complete"

structure WellKept (r : Registry) : Prop where
  keyed : Keyed r.jobs
  entries : ∀ jobId cid, OnRow wellKept cid (r.jobs.get? jobId)

def batchFolding : Machine BatchStore (Turn Answer Event) := batchMachine foldingCalls WellKept

def Entry.finalises (jobId cid : String) : Entry → Bool
  | .wrote _ (.mutation (.finalizeLease jobId' cid' _ _) _) _ value _ _ =>
    jobId' == jobId && cid' == cid && Store.done value
  | _ => false

def Entry.handsBack (jobId : String) : Entry → List String
  | .returned _ jobId' (.results results) =>
    if jobId' = jobId then results.map fun res => Jobs.strip res.customId else []
  | _ => []

def handedBack (jobId : String) (h : List Entry) : List String :=
  h.flatMap (Entry.handsBack jobId)

def RecordedFirst (h : List Entry) : Prop :=
  ∀ h1 h2 τ c env value before after jobId cid,
    h = h1 ++ .wrote τ c env value before after :: h2 →
    ¬ Retrieved before jobId cid → Retrieved after jobId cid → Recorded τ jobId cid h1

structure FoldInv (r : Registry) (h : List Entry) : Prop where
  kept : WellKept r
  first : RecordedFirst h
  once : ∀ jobId cid, h.countP (Entry.finalises jobId cid) ≤ 1
  settled : ∀ jobId cid, 0 < h.countP (Entry.finalises jobId cid) →
    OnRow settled cid (r.jobs.get? jobId)
  backed : ∀ jobId, ∀ cid ∈ handedBack jobId h, ∃ τ, Finalised τ jobId cid h ∧
    ∃ e ∈ h, e.returns τ
  handed : ∀ jobId, (handedBack jobId h).Nodup

theorem handedBack_append (jobId : String) (h : List Entry) (e : Entry) :
    handedBack jobId (h ++ [e]) = handedBack jobId h ++ e.handsBack jobId := by
  simp [handedBack]

variable {h : List Entry} {cid : String}

theorem finalised_mem {τ : Nat} (hf : Finalised τ jobId cid h) :
    ∃ e ∈ h, e.finalises jobId cid = true ∧ e.by = τ := by
  obtain ⟨token, epoch, value, ⟨env, before, after, hmem⟩, hdone⟩ := hf
  refine ⟨_, hmem, ?_, rfl⟩
  rw [Entry.finalises, beq_self_eq_true, beq_self_eq_true, hdone]
  rfl

theorem finalises_unique {e e' : Entry} (hone : h.countP (Entry.finalises jobId cid) ≤ 1)
    (he : e ∈ h) (he' : e' ∈ h) (hf : e.finalises jobId cid = true)
    (hf' : e'.finalises jobId cid = true) : e = e' := by
  rw [countP_eq_length_filter] at hone
  have hmem : e ∈ h.filter (Entry.finalises jobId cid) := mem_filter.mpr ⟨he, hf⟩
  have hmem' : e' ∈ h.filter (Entry.finalises jobId cid) := mem_filter.mpr ⟨he', hf'⟩
  generalize h.filter (Entry.finalises jobId cid) = finals at hone hmem hmem'
  cases finals with
  | nil => cases hmem
  | cons x xs =>
    have hxs : xs = [] := eq_nil_of_length_eq_zero (Nat.le_zero.mp (Nat.le_of_succ_le_succ hone))
    rw [hxs, mem_singleton] at hmem hmem'
    rw [hmem, hmem']

section Step

variable {s t : World} {e : Entry}

variable (hI : FoldInv s.registry s.history)

include hI

theorem FoldInv.silent (hr : t.registry = s.registry)
    (hf : ∀ jobId cid, e.finalises jobId cid = false) (hb : ∀ jobId, e.handsBack jobId = [])
    (hw : ∀ τ c env value before after, e ≠ .wrote τ c env value before after) :
    FoldInv t.registry (s.history ++ [e]) where
  kept := hr ▸ hI.kept
  first := by
    intro h1 h2 τ c env value before after jobId cid heq
    rcases append_singleton_split heq with ⟨-, hx, -⟩ | ⟨h3, rfl, hold⟩
    · exact absurd hx.symm (hw τ c env value before after)
    · exact hI.first h1 h3 τ c env value before after jobId cid hold
  once := by
    intro jobId cid
    rw [countP_append, countP_singleton, hf]
    simpa using hI.once jobId cid
  settled := by
    intro jobId cid hpos
    rw [countP_append, countP_singleton, hf] at hpos
    rw [hr]
    exact hI.settled jobId cid (by simpa using hpos)
  backed := by
    intro jobId cid hcid
    rw [handedBack_append, hb, append_nil] at hcid
    obtain ⟨τ, hfinal, e', he', hret⟩ := hI.backed jobId cid hcid
    exact ⟨τ, hfinal.mono (prefix_append _ _), e', mem_append_left _ he', hret⟩
  handed := by
    intro jobId
    rw [handedBack_append, hb, append_nil]
    exact hI.handed jobId

variable {τ : Nat}

theorem FoldInv.wrote {A : Closure → Prop} {c : Closure} {env : Env} {value : Value}
    (hA : ∀ c, A c → c.folds) (hc : Admitted A τ c s.history)
    (happly : c.apply env s.registry = .ok (value, t.registry)) :
    FoldInv t.registry (s.history ++ [.wrote τ c env value s.registry t.registry]) := by
  have hfolds := hA c hc.allowed
  have hevolves : ∀ jobId cid, Evolves cid (c.finalises = some (jobId, cid))
      (s.registry.jobs.get? jobId) (t.registry.jobs.get? jobId) :=
    closure_evolves hfolds hI.kept.keyed happly
  have hnone : ∀ jobId,
      (Entry.wrote τ c env value s.registry t.registry).handsBack jobId = [] := fun _ => rfl
  have hsettles : ∀ jobId cid,
      (Entry.wrote τ c env value s.registry t.registry).finalises jobId cid = true →
      ¬ OnRow Batch.settled cid (s.registry.jobs.get? jobId) ∧
        OnRow Batch.settled cid (t.registry.jobs.get? jobId) := by
    intro jobId cid hf
    unfold Entry.finalises at hf
    split at hf
    · rename_i heq
      cases heq
      simp only [Bool.and_eq_true, beq_iff_eq] at hf
      obtain ⟨⟨rfl, rfl⟩, hdone⟩ := hf
      exact finalise_settles happly hdone hI.kept.keyed
    · cases hf
  refine ⟨⟨closure_keyed hfolds hI.kept.keyed happly, ?_⟩, ?_, ?_, ?_, ?_, ?_⟩
  · intro jobId cid
    exact (stable_wellKept _).evolves (hevolves jobId cid) (hI.kept.entries jobId cid)
  · intro h1 h2 τ' c' env' value' before after jobId cid heq
    rcases append_singleton_split heq with ⟨rfl, hx, -⟩ | ⟨h3, rfl, hold⟩
    · cases hx
      intro hbefore hafter
      have hfinal : c.finalises = some (jobId, cid) := by
        by_contra hne
        have hun : OnRow (fun _ e => e.isRetrieved = false) cid (s.registry.jobs.get? jobId) := by
          intro job hjob
          rw [← Bool.not_eq_true]
          exact fun hretrieved => hbefore ⟨job, hjob, hretrieved⟩
        obtain ⟨job, hjob, hretrieved⟩ := hafter
        have hstill : (job.entry cid).isRetrieved = false :=
          stable_unretrieved.evolves ((hevolves jobId cid).mono hne) hun job hjob
        rw [hretrieved] at hstill
        cases hstill
      cases c with
      | mutation m epoch =>
        obtain ⟨-, hready⟩ := hc.admitted m epoch rfl
        exact hready.recorded jobId cid hfinal
      | _ => cases hfinal
    · exact hI.first h1 h3 τ' c' env' value' before after jobId cid hold
  · intro jobId cid
    rw [countP_append, countP_singleton]
    split
    · rename_i hf
      have hzero : s.history.countP (Entry.finalises jobId cid) = 0 := by
        by_contra hne
        exact (hsettles jobId cid hf).1 (hI.settled jobId cid (Nat.pos_of_ne_zero hne))
      omega
    · exact hI.once jobId cid
  · intro jobId cid hpos
    rw [countP_append, countP_singleton] at hpos
    split at hpos
    · rename_i hf
      exact (hsettles jobId cid hf).2
    · exact (stable_settled _).evolves (hevolves jobId cid) (hI.settled jobId cid hpos)
  · intro jobId cid hcid
    rw [handedBack_append, hnone, append_nil] at hcid
    obtain ⟨τ', hfinal, e', he', hret⟩ := hI.backed jobId cid hcid
    exact ⟨τ', hfinal.mono (prefix_append _ _), e', mem_append_left _ he', hret⟩
  · intro jobId
    rw [handedBack_append, hnone, append_nil]
    exact hI.handed jobId

theorem FoldInv.returned {outcome : Outcome} (hr : t.registry = s.registry)
    (hback : ∀ recorded, outcome = .results recorded → HandsBack τ jobId recorded s.history)
    (hfirst : ∀ e ∈ s.history, ¬ e.returns τ) :
    FoldInv t.registry (s.history ++ [.returned τ jobId outcome]) := by
  have hnew : ∀ jobId' cid, cid ∈ (Entry.returned τ jobId outcome).handsBack jobId' →
      Finalised τ jobId' cid s.history := by
    intro jobId' cid hcid
    unfold Entry.handsBack at hcid
    split at hcid
    · rename_i recorded heq
      cases heq
      split at hcid
      · rename_i hjob
        subst hjob
        obtain ⟨res, hres, rfl⟩ := List.mem_map.mp hcid
        exact (hback recorded rfl).finalised res hres
      · cases hcid
    · cases hcid
  refine ⟨hr ▸ hI.kept, ?_, ?_, ?_, ?_, ?_⟩
  · intro h1 h2 τ' c env value before after jobId' cid heq
    rcases append_singleton_split heq with ⟨-, hx, -⟩ | ⟨h3, rfl, hold⟩
    · cases hx
    · exact hI.first h1 h3 τ' c env value before after jobId' cid hold
  · intro jobId' cid
    rw [countP_append, countP_singleton]
    exact hI.once jobId' cid
  · intro jobId' cid hpos
    rw [countP_append, countP_singleton] at hpos
    rw [hr]
    exact hI.settled jobId' cid hpos
  · intro jobId' cid hcid
    rw [handedBack_append] at hcid
    rcases mem_append.mp hcid with hold | hcid
    · obtain ⟨τ', hfinal, e', he', hret⟩ := hI.backed jobId' cid hold
      exact ⟨τ', hfinal.mono (prefix_append _ _), e', mem_append_left _ he', hret⟩
    · exact ⟨τ, (hnew jobId' cid hcid).mono (prefix_append _ _), _,
        mem_append_right _ (mem_singleton.mpr rfl), rfl⟩
  · intro jobId'
    rw [handedBack_append, nodup_append]
    refine ⟨hI.handed jobId', ?_, ?_⟩
    · unfold Entry.handsBack
      split
      · rename_i recorded heq
        cases heq
        split
        · exact (hback recorded rfl).nodup
        · exact nodup_nil
      · exact nodup_nil
    · -- a result that was handed back before was finalised by a call that has returned
      intro cid hold cid' hcid' heq
      subst heq
      obtain ⟨τ', hfinal, e', he', hret⟩ := hI.backed jobId' cid hold
      obtain ⟨w, hw, hwf, hwτ⟩ := finalised_mem hfinal
      obtain ⟨w', hw', hwf', hwτ'⟩ := finalised_mem (hnew jobId' cid hcid')
      have hsame := finalises_unique (hI.once jobId' cid) hw hw' hwf hwf'
      rw [← hwτ, hsame, hwτ'] at hret
      exact hfirst e' he' hret

theorem FoldInv.step {G : Nat → Mutation → Prop}
    (hj : Justified Closure.folds G s t e) : FoldInv t.registry (s.history ++ [e]) := by
  cases hj with
  | obtained same | admitted _ _ same =>
    exact hI.silent same (fun _ _ => rfl) (fun _ => rfl) (by simp)
  | recorded _ _ same => exact hI.silent same (fun _ _ => rfl) (fun _ => rfl) (by simp)
  | wrote rests applied => exact hI.wrote (fun _ h => h) rests applied
  | returned handsBack first same => exact hI.returned same handsBack first

end Step

theorem foldInv_nil {r : Registry} (hr : WellKept r) : FoldInv r [] where
  kept := hr
  first := by
    intro h1 h2 τ c env value before after jobId cid heq
    simp at heq
  once := fun _ _ => Nat.zero_le 1
  settled := fun _ _ hpos => absurd hpos (Nat.lt_irrefl 0)
  backed := fun _ _ hcid => nomatch hcid
  handed := fun _ => nodup_nil

theorem foldInv {c : BatchStore} (h : batchFolding.Reaches anyStep c) :
    FoldInv c.state.registry c.state.history := by
  refine run_invariant within_folds (G := fun _ _ _ => True) (I := FoldInv)
    (fun _ _ _ _ _ _ _ _ => trivial) (fun r hr => foldInv_nil hr) ?_ h
  intro s t e hI hj
  exact hI.step hj

/-! ### Any continuation of a run -/

def Entry.claims (jobId cid : String) : Entry → Bool
  | .wrote _ (.mutation (.claimReentries jobId' _ _) _) _ value _ _ =>
    jobId' == jobId && (Store.granted value).contains cid
  | _ => false

structure Idle (τ : Nat) (jobId : String) (h : List Entry) : Prop where
  leased : ∀ cid, ¬ Leased τ jobId cid h
  recorded : ∀ cid row, Entry.recorded τ jobId cid row ∉ h
  finalised : ∀ cid, ¬ Finalised τ jobId cid h
  returned : ∀ results, Entry.returned τ jobId (.results results) ∈ h → results = []

/-- **Exactly once**, between a state and a later one of the same run. -/
structure FoldedOnce (c d : BatchStore) : Prop where
  /-- A result becomes retrieved by a write of a call that had recorded its usage row. -/
  recordedFirst : RecordedFirst d.state.history
  recorded : ∀ jobId cid, ¬ Retrieved c.state.registry jobId cid →
    Retrieved d.state.registry jobId cid → ∃ τ, Recorded τ jobId cid d.state.history
  /-- It stays retrieved until its row is compacted. -/
  retrieved : ∀ jobId cid, Retrieved c.state.registry jobId cid →
    Retrieved d.state.registry jobId cid ∨ Compacted d.state.registry jobId
  /-- No result is handed back twice. -/
  handedBack : ∀ jobId, (handedBack jobId d.state.history).Nodup
  /-- A complete re-entry is not leased again. -/
  reentry : ∀ jobId cid, ReentryComplete c.state.registry jobId cid →
    ∀ e ∈ d.state.history.drop c.state.history.length, e.claims jobId cid = false
  /-- After compaction, later calls do nothing for the job. -/
  compacted : ∀ jobId, Compacted c.state.registry jobId →
    Compacted d.state.registry jobId ∧ ∀ τ ≥ c.threads.length, Idle τ jobId d.state.history

section Steps

variable {G : Nat → Mutation → Prop} {s t : World} {e : Entry} {jobId cid : String}

theorem onRow_step {Φ : Bool → Tracking → Prop} (hΦ : ∀ final, Stable final Φ)
    (hI : FoldInv s.registry s.history) (hj : Justified Closure.folds G s t e)
    (h : OnRow Φ cid (s.registry.jobs.get? jobId)) : OnRow Φ cid (t.registry.jobs.get? jobId) := by
  cases hj with
  | obtained same | admitted _ _ same | recorded _ _ same | returned _ _ same => exact same ▸ h
  | wrote rests applied =>
    exact (hΦ _).evolves (closure_evolves rests.allowed hI.kept.keyed applied jobId cid) h

theorem recorded_step (hI : FoldInv s.registry s.history) (hj : Justified Closure.folds G s t e)
    (hold : Retrieved s.registry jobId cid → ∃ τ, Recorded τ jobId cid s.history)
    (hnew : Retrieved t.registry jobId cid) : ∃ τ, Recorded τ jobId cid (s.history ++ [e]) := by
  by_cases hs : Retrieved s.registry jobId cid
  · obtain ⟨τ, hτ⟩ := hold hs
    exact ⟨τ, hτ.mono (prefix_append _ _)⟩
  · have hfirst := (hI.step hj).first
    cases hj with
    | obtained same | admitted _ _ same | recorded _ _ same | returned _ _ same =>
      exact absurd (same ▸ hnew) hs
    | wrote rests applied =>
      have hrow := hfirst s.history [] _ _ _ _ _ _ jobId cid rfl hs hnew
      exact ⟨_, hrow.mono (prefix_append _ _)⟩

theorem claims_step (hI : FoldInv s.registry s.history) (hj : Justified Closure.folds G s t e)
    (h : OnRow completed cid (s.registry.jobs.get? jobId)) : e.claims jobId cid = false := by
  cases hj with
  | wrote rests applied =>
    rw [Bool.eq_false_iff]
    intro hclaims
    unfold Entry.claims at hclaims
    split at hclaims
    · rename_i heq
      cases heq
      rw [Bool.and_eq_true, beq_iff_eq] at hclaims
      obtain ⟨rfl, hgranted⟩ := hclaims
      rw [claimReentries_completed applied hI.kept.keyed h] at hgranted
      cases hgranted
    · cases hclaims
  | _ => rfl

variable {τ : Nat}

theorem wrote_append {c : Closure} {value : Value} (hw : Wrote τ c value (h ++ [e])) :
    Wrote τ c value h ∨ ∃ env before after, e = .wrote τ c env value before after := by
  obtain ⟨env, before, after, hmem⟩ := hw
  rcases mem_append.mp hmem with hmem | hmem
  · exact .inl ⟨env, before, after, hmem⟩
  · exact .inr ⟨env, before, after, (mem_singleton.mp hmem).symm⟩

theorem idle_step (hI : FoldInv s.registry s.history) (hj : Justified Closure.folds G s t e)
    (hc : Compacted s.registry jobId) (h : Idle τ jobId s.history) :
    Idle τ jobId (s.history ++ [e]) where
  leased := by
    rintro cid ⟨states, nowMs, epoch, value, hw, hcid⟩
    rcases wrote_append hw with hold | ⟨env, before, after, rfl⟩
    · exact h.leased cid ⟨states, nowMs, epoch, value, hold, hcid⟩
    · cases hj with
      | wrote rests applied =>
        rw [leaseClaim_closed applied hI.kept.keyed hc] at hcid
        cases hcid
  recorded := by
    intro cid row hmem
    rcases mem_append.mp hmem with hold | hmem
    · exact h.recorded cid row hold
    · cases mem_singleton.mp hmem
      cases hj with
      | recorded leased => exact h.leased cid leased
  finalised := by
    rintro cid ⟨token, epoch, value, hw, hdone⟩
    rcases wrote_append hw with hold | ⟨env, before, after, rfl⟩
    · exact h.finalised cid ⟨token, epoch, value, hold, hdone⟩
    · cases hj with
      | wrote rests applied =>
        obtain ⟨-, hready⟩ := rests.admitted _ _ rfl
        obtain ⟨row, hmem, -⟩ := hready.recorded jobId cid rfl
        exact h.recorded cid row hmem
  returned := by
    intro results hmem
    rcases mem_append.mp hmem with hold | hmem
    · exact h.returned results hold
    · cases mem_singleton.mp hmem
      cases hj with
      | returned handsBack =>
        rw [eq_nil_iff_forall_not_mem]
        intro res hres
        exact h.finalised _ ((handsBack results rfl).finalised res hres)

end Steps

theorem idle_of_below {n τ : Nat} (hb : ∀ e ∈ h, e.by < n) (hτ : n ≤ τ) : Idle τ jobId h := by
  have hnot : ∀ e ∈ h, e.by ≠ τ := fun e he heq => absurd (heq ▸ hb e he) (Nat.not_lt.mpr hτ)
  refine ⟨?_, ?_, ?_, ?_⟩
  · rintro cid ⟨states, nowMs, epoch, value, ⟨env, before, after, hmem⟩, -⟩
    exact hnot _ hmem rfl
  · intro cid row hmem
    exact hnot _ hmem rfl
  · rintro cid ⟨token, epoch, value, ⟨env, before, after, hmem⟩, -⟩
    exact hnot _ hmem rfl
  · intro results hmem
    exact absurd rfl (hnot _ hmem)

/-- **Batch results are folded exactly once**, for any number of calls of result folding, in
every interleaving, and for any registry that the store wrote. -/
theorem batch_results_folded_once {c d : BatchStore} {es : List (Turn Answer Event)}
    (h : batchFolding.Reaches anyStep c) (hrun : batchFolding.run c es = some d) :
    FoldedOnce c d := by
  have hc := foldInv h
  have hd : FoldInv d.state.registry d.state.history := foldInv (h.run hrun)
  have hstays : ∀ {Φ : Bool → Tracking → Prop} {jobId cid : String},
      (∀ final, Stable final Φ) → OnRow Φ cid (c.state.registry.jobs.get? jobId) →
      OnRow Φ cid (d.state.registry.jobs.get? jobId) := by
    intro Φ jobId cid hΦ hstart
    exact run_from within_folds (I := FoldInv) (J := fun r _ => OnRow Φ cid (r.jobs.get? jobId))
      (fun x hx => foldInv hx) (fun s t e hI hJ hj => onRow_step hΦ hI hj hJ) h hstart hrun
  refine ⟨hd.first, ?_, ?_, hd.handed, ?_, ?_⟩
  · intro jobId cid hbefore hafter
    have hrow := run_from within_folds (I := FoldInv) (J := fun r h =>
        Retrieved r jobId cid → ∃ τ, Recorded τ jobId cid h)
      (fun x hx => foldInv hx) (fun s t e hI hJ hj => recorded_step hI hj hJ) h
      (fun hretrieved => absurd hretrieved hbefore) hrun
    exact hrow hafter
  · rintro jobId cid ⟨job, hjob, hretrieved⟩
    have hstart : OnRow settled cid (c.state.registry.jobs.get? jobId) := by
      intro job' heq
      rw [hjob] at heq
      cases heq
      exact .inl hretrieved
    have hlast := hstays stable_settled hstart
    cases hrow : d.state.registry.jobs.get? jobId with
    | none =>
      refine .inr ?_
      intro job' heq
      rw [hrow] at heq
      cases heq
    | some job' =>
      rcases hlast job' hrow with hstill | ⟨hclosed, -⟩
      · exact .inl ⟨job', hrow, hstill⟩
      · refine .inr ?_
        intro job'' heq
        rw [hrow] at heq
        cases heq
        exact hclosed
  · rintro jobId cid ⟨job, hjob, hstate⟩
    have hkept := hc.kept.entries jobId cid job hjob
    have hstart : OnRow completed cid (c.state.registry.jobs.get? jobId) := by
      intro job' heq
      rw [hjob] at heq
      cases heq
      exact .inl ⟨hkept.1 (.inr hstate), hstate, hkept.2 hstate⟩
    have hlast := run_from within_folds (I := FoldInv) (J := fun r h =>
        OnRow completed cid (r.jobs.get? jobId) ∧ c.state.history.length ≤ h.length ∧
          ∀ e ∈ h.drop c.state.history.length, e.claims jobId cid = false)
      (fun x hx => foldInv hx) ?_ h ⟨hstart, Nat.le_refl _, by simp⟩ hrun
    · exact hlast.2.2
    · rintro s t e hI ⟨hcomplete, hlen, hold⟩ hj
      refine ⟨onRow_step stable_completed hI hj hcomplete, ?_, ?_⟩
      · rw [List.length_append]
        exact Nat.le_add_right_of_le hlen
      · intro e' he'
        rw [List.drop_append_of_le_length hlen] at he'
        rcases List.mem_append.mp he' with he' | he'
        · exact hold e' he'
        · rw [List.mem_singleton.mp he']
          exact claims_step hI hj hcomplete
  · intro jobId hcompacted
    have hbelow : ∀ e ∈ c.state.history, e.by < c.threads.length :=
      (verified within_folds h).below
    refine run_from within_folds (I := FoldInv) (J := fun r h => Compacted r jobId ∧
        ∀ τ ≥ c.threads.length, Idle τ jobId h)
      (fun x hx => foldInv hx) ?_ h ⟨hcompacted, fun τ hτ => idle_of_below hbelow hτ⟩ hrun
    rintro s t e hI ⟨hclosed, hidle⟩ hj
    exact ⟨onRow_step stable_closed hI hj hclosed, fun τ hτ => idle_step hI hj hclosed (hidle τ hτ)⟩

def sampleResult (cid : String) : BatchResult := ⟨cid, "succeeded", "m", 1, 1, 0, 0⟩

def sampleResults : List BatchResult := [sampleResult "r1", sampleResult "r2"]

/-- The delivery is folded, its re-entry completed and the job compacted; the same results
are delivered again. -/
def deliveredTwice : List (Turn Answer Event) :=
  [.outside (.call (.processResults sampleJob sampleResults "investigator" "batch"))] ++
    accesses 0 21 ++ [.finish 0] ++
    [.outside (.call (.claimReentries "b" ["r1"]))] ++ accesses 1 7 ++ [.finish 1] ++
    [.outside (.call (.completeReentry "b" "r1" "x"))] ++ accesses 2 6 ++ [.finish 2]

def deliveredAgain : List (Turn Answer Event) :=
  [.outside (.call (.processResults sampleJob sampleResults "investigator" "batch"))] ++
    accesses 3 7 ++ [.finish 3]

theorem entry_sampleJob (cid : String) : sampleJob.entry cid = {} := by
  unfold BatchJob.entry
  cases hget : sampleJob.customIds.get? cid with
  | none => rfl
  | some entry =>
    have hmem : (cid, entry) ∈ [("r1", ({} : Tracking)), ("r2", {})] := Dict.mem_of_get?_ofList hget
    simp only [mem_cons, Prod.mk.injEq, not_mem_nil, or_false] at hmem
    rcases hmem with ⟨-, rfl⟩ | ⟨-, rfl⟩
    · rfl
    · rfl

theorem wellKept_sample : WellKept sampleWorld.registry := by
  have hrow : ∀ id job, sampleWorld.registry.jobs.get? id = some job →
      id = "b" ∧ job = sampleJob := by
    intro id job hjob
    have hmem : (id, job) ∈ [("b", sampleJob)] := Dict.mem_of_get?_ofList hjob
    rw [mem_singleton, Prod.mk.injEq] at hmem
    exact hmem
  constructor
  · intro id job hjob
    obtain ⟨rfl, rfl⟩ := hrow id job hjob
    rfl
  · intro jobId cid job hjob
    obtain ⟨-, rfl⟩ := hrow jobId job hjob
    rw [entry_sampleJob]
    exact (stable_wellKept False).scrub {} ⟨fun heq => by simp at heq, fun _ => rfl⟩

set_option maxRecDepth 10000 in
theorem batch_results_folded_once_of_redelivery : ∃ c d, batchFolding.Reaches anyStep c ∧
    batchFolding.run c deliveredAgain = some d ∧
    handedBack "b" d.state.history = ["r1", "r2"] ∧ FoldedOnce c d := by
  have hstart : batchFolding.start ⟨sampleWorld, []⟩ := ⟨⟨rfl, wellKept_sample⟩, rfl⟩
  have hrun : ((batchFolding.run ⟨sampleWorld, []⟩ deliveredTwice).any fun c =>
      (batchFolding.run c deliveredAgain).any fun d =>
        handedBack "b" d.state.history == ["r1", "r2"]) = true := by decide
  obtain ⟨c, -, hc, hd⟩ := reaches_of_run batchFolding _ _ _ hstart hrun
  rw [Option.any_eq_true] at hd
  obtain ⟨d, hrun, hback⟩ := hd
  exact ⟨c, d, hc, hrun, by simpa using hback, batch_results_folded_once hc hrun⟩

end AgenticKibana.Batch
