import AgenticKibana.Batch.Runs

/-!
# Rows that a reset has cleared

A clear moves the epoch on, so a mutation that was admitted before it is refused at its
write, whichever of its attempts that is.  What the epoch does not see is the job object
that `save` and `create_if_absent` are handed: a caller that loaded or built it before the
clear, and is admitted after it, writes the cleared row again.
-/

namespace AgenticKibana.Batch

open AgenticKibana.Library Machine Threads List

/-! ### The rows of a mutation -/

section Absent

variable {jobs : Jobs} {id id' : String} {job : BatchJob}

variable (hid : jobs.get? id = none)

include hid

theorem absent_set {job' : BatchJob} (hrow : jobs.get? id' = some job) :
    (jobs.set id' job').get? id = none := by
  have hne : id ≠ id' := by
    rintro rfl
    rw [hid] at hrow
    cases hrow
  rw [Dict.get?_set_of_ne _ _ hne]
  exact hid

theorem absent_erase : (jobs.erase id').get? id = none := by
  rw [Dict.get?_erase]
  split
  · rfl
  · exact hid

theorem absent_popAll {rows : List BatchJob} : (popAll jobs rows).get? id = none := by
  induction rows generalizing jobs with
  | nil => exact hid
  | cons row rows ih => exact ih (absent_erase hid)

theorem absent_trim : (trim jobs).get? id = none := by
  have hmap : (jobs.mapValues fun _ job => job.compactTerminal).get? id = none := by
    rw [Dict.get?_mapValues, hid]
    rfl
  unfold trim
  dsimp only
  split
  · exact absent_popAll hmap
  · exact hmap

variable {jobId : String} {jobs' : Jobs} {f : BatchJob → Option BatchJob}

theorem absent_onJob : (onJob jobs jobId f).2.get? id = none := by
  unfold onJob
  split
  · exact hid
  · rename_i job hjob
    split
    · exact hid
    · exact absent_set hid hjob

theorem absent_onLeases {refuses : BatchJob → Bool}
    {f : BatchJob → Dict String Tracking × Dict String String} :
    (onLeases jobs jobId refuses f).2.get? id = none := by
  unfold onLeases
  split
  · exact hid
  · rename_i job hjob
    split
    · exact hid
    · dsimp only
      split
      · exact hid
      · exact absent_set hid hjob

theorem absent_onInbox {expected : String} : (onInbox jobs jobId expected f).2.get? id = none := by
  unfold onInbox
  split
  · exact hid
  · rename_i job hjob
    split
    · exact hid
    · split
      · exact hid
      · exact absent_set hid hjob

theorem absent_claimSubmission {uuid : Nat → String} {nowMs : Nat} :
    (claimSubmission uuid jobId nowMs jobs).2.get? id = none := by
  unfold claimSubmission
  split
  · exact hid
  · rename_i job hjob
    split
    · exact hid
    · split
      · exact hid
      · exact absent_set hid hjob

variable {value : Value}

theorem absent_onSubmission {token refusal : String} {f : BatchJob → BatchJob}
    (h : onSubmission jobs jobId token refusal f = .ok (value, jobs')) : jobs'.get? id = none := by
  unfold onSubmission at h
  split at h
  · cases h
    exact hid
  · rename_i job hjob
    split at h
    · cases h
    · cases h
      exact absent_set hid hjob

theorem absent_createIfAbsent (hne : id ≠ job.id)
    (h : createIfAbsent job jobs = .ok (value, jobs')) : jobs'.get? id = none := by
  unfold createIfAbsent at h
  split at h
  · cases h
    exact hid
  · dsimp only at h
    split at h
    · split at h
      · cases h
      · cases h
        rw [Dict.get?_set_of_ne _ _ hne]
        exact absent_popAll hid
    · cases h
      rw [Dict.get?_set_of_ne _ _ hne]
      exact hid

/-- **The only row a mutation can add** is the one that `save` and `create_if_absent` are
handed. -/
theorem absent_change {env : Env} {m : Mutation}
    (hm : m.inserts ≠ some id) (h : m.change env jobs = .ok (value, jobs')) :
    jobs'.get? id = none := by
  cases m with
  | save job =>
    cases h
    have hne : id ≠ job.id := fun heq => hm (heq ▸ rfl)
    rw [Dict.get?_set_of_ne _ _ hne]
    exact hid
  | createIfAbsent job =>
    have hne : id ≠ job.id := fun heq => hm (heq ▸ rfl)
    exact absent_createIfAbsent hid hne h
  | claimSubmission jobId nowMs =>
    rw [ok_snd h]
    exact absent_claimSubmission hid
  | failSubmission jobId token error | completeSubmission jobId token remote =>
    exact absent_onSubmission hid h
  | setInboxAudience jobId audience truncated =>
    rw [ok_snd h]
    exact absent_onInbox hid
  | markInboxProjection jobId username generation state signature =>
    rw [ok_snd h]
    exact absent_onInbox hid
  | delete jobId =>
    cases h
    exact absent_erase hid
  | leaseClaim jobId states nowMs =>
    rw [ok_snd h]
    exact absent_onLeases hid
  | failLedgerLease jobId cid token error | finalizeLease jobId cid token rstate =>
    rw [ok_snd h]
    exact absent_onJob hid
  | claimReentries jobId wanted nowMs =>
    rw [ok_snd h]
    exact absent_onLeases hid
  | failReentry jobId cid token error | completeReentry jobId cid token =>
    rw [ok_snd h]
    exact absent_onJob hid

end Absent

variable {env : Env} {e : Entry} {h : List Entry} {value : Value}

theorem apply_clearAll {owner : String} {current next : Registry}
    (h : (Closure.clearAll owner).apply env current = .ok (value, next)) :
    next.resetEpoch = current.resetEpoch + 1 ∧ next.jobs = Dict.empty := by
  simp only [Closure.apply] at h
  split at h
  · split at h
    · cases h
    · cases h
      exact ⟨rfl, rfl⟩
  · split at h
    · cases h
    · cases h
      exact ⟨rfl, rfl⟩

theorem apply_epoch {c : Closure} {current next : Registry}
    (h : c.apply env current = .ok (value, next)) : current.resetEpoch ≤ next.resetEpoch := by
  cases c with
  | mutation m epoch =>
    obtain ⟨-, hcurrent, hnext, -⟩ := apply_mutation h
    exact Nat.le_of_eq (hcurrent.trans hnext.symm)
  | beginFactoryFence owner =>
    cases h
    dsimp only
    split
    · exact Nat.le_succ _
    · exact Nat.le_refl _
  | clearAll owner =>
    rw [(apply_clearAll h).1]
    exact Nat.le_succ _
  | releaseFactoryFence owner =>
    simp only [Closure.apply] at h
    split at h
    · cases h
    · cases h
      exact Nat.le_refl _

def Entry.clears : Entry → Bool
  | .wrote _ (.clearAll _) _ _ _ _ => true
  | _ => false

def Accounted (r : Registry) (h : List Entry) : Prop :=
  ∀ h1 h2 τ m epoch, h = h1 ++ .admitted τ m epoch :: h2 →
    epoch + h2.countP Entry.clears ≤ r.resetEpoch

/-- The entry is the one at which the call `τ` got its job object. -/
def Entry.obtains (τ : Nat) : Entry → Bool
  | .obtained τ' => τ' == τ
  | _ => false

def Entry.clearsRow (id : String) : Entry → Bool
  | .wrote _ (.clearAll _) _ _ before _ => before.jobs.contains id
  | _ => false

def stale (τ : Nat) (id : String) (h : List Entry) : Bool :=
  (h.dropWhile fun e => !e.obtains τ).any (Entry.clearsRow id)

def FreshObject (h : List Entry) (τ : Nat) (m : Mutation) : Prop :=
  ∀ id ∈ m.inserts, stale τ id h = false

instance (h : List Entry) (τ : Nat) (m : Mutation) : Decidable (FreshObject h τ m) :=
  match hm : m.inserts with
  | none => isTrue (by simp [FreshObject, hm])
  | some id => decidable_of_iff (stale τ id h = false) (by simp [FreshObject, hm])

/-- A step that does not start a `save` or a `create_if_absent` of an object which its
caller got before the row of that object was cleared. -/
def freshObjects (c : BatchStore) (turn : Turn Answer Event) : Prop :=
  match turn, action c turn with
  | .step τ _, some (.admission m) => FreshObject c.state.history τ m
  | _, _ => True

variable {τ : Nat}

theorem stale_of_split {id : String} {h1 h2 : List Entry} (hmem : Entry.obtained τ ∈ h1)
    (he : e.clearsRow id = true) : stale τ id (h1 ++ e :: h2) = true := by
  induction h1 with
  | nil => cases hmem
  | cons x h1 ih =>
    unfold stale
    rw [List.cons_append, dropWhile_cons]
    split
    · rename_i hx
      rcases mem_cons.mp hmem with rfl | hmem
      · simp [Entry.obtains] at hx
      · exact ih hmem
    · rw [List.any_eq_true]
      exact ⟨e, by simp, he⟩

/-! ### The result -/

/-- A row that a clear has removed is put back only by a call that got its job object and
was admitted after the clear. -/
def ClearedStays (h : List Entry) : Prop :=
  ∀ h1 h2 h3 τc owner env value before after τ m epoch env' value' before' after' id,
    h = h1 ++ .wrote τc (.clearAll owner) env value before after ::
      (h2 ++ .wrote τ (.mutation m epoch) env' value' before' after' :: h3) →
    before.jobs.contains id = true → before'.jobs.contains id = false →
    after'.jobs.contains id = true →
    (Entry.obtained τ ∉ h1 ∧ Entry.obtained τ ∈ h2) ∧
      Entry.admitted τ m epoch ∉ h1 ∧ Entry.admitted τ m epoch ∈ h2

structure Kept (r : Registry) (h : List Entry) : Prop where
  accounted : Accounted r h
  fresh : ∀ h1 h2 τ m epoch, h = h1 ++ .admitted τ m epoch :: h2 → FreshObject h1 τ m
  stays : ClearedStays h

theorem Accounted.append {r r' : Registry} (ha : Accounted r h)
    (hr : r.resetEpoch + [e].countP Entry.clears ≤ r'.resetEpoch)
    (he : ∀ τ m epoch, e = .admitted τ m epoch → epoch ≤ r'.resetEpoch) :
    Accounted r' (h ++ [e]) := by
  intro h1 h2 τ m epoch heq
  rcases append_singleton_split heq with ⟨-, hx, rfl⟩ | ⟨h3, rfl, rfl⟩
  · exact he τ m epoch hx.symm
  · have hold := ha h1 h3 τ m epoch rfl
    rw [countP_append]
    omega

theorem freshObject_append
    (hf : ∀ h1 h2 τ m epoch, h = h1 ++ .admitted τ m epoch :: h2 → FreshObject h1 τ m)
    (he : ∀ τ m epoch, e = .admitted τ m epoch → FreshObject h τ m) :
    ∀ h1 h2 τ m epoch, h ++ [e] = h1 ++ .admitted τ m epoch :: h2 → FreshObject h1 τ m := by
  intro h1 h2 τ m epoch heq
  rcases append_singleton_split heq with ⟨rfl, hx, rfl⟩ | ⟨h3, rfl, rfl⟩
  · exact he τ m epoch hx.symm
  · exact hf h1 h3 τ m epoch rfl

theorem ClearedStays.append (hs : ClearedStays h)
    (he : ∀ τ m epoch env value before after,
      e ≠ .wrote τ (.mutation m epoch) env value before after) :
    ClearedStays (h ++ [e]) := by
  intro h1 h2 h3 τc owner env value before after τ m epoch env' value' before' after' id heq
  rw [← List.cons_append, ← append_assoc] at heq
  rcases append_singleton_split heq with ⟨-, hx, -⟩ | ⟨h4, rfl, rfl⟩
  · exact absurd hx.symm (he τ m epoch env' value' before' after')
  · exact hs h1 h2 h4 τc owner env value before after τ m epoch env' value' before' after'
      id (by simp)

variable {A : Closure → Prop}

/-- **A mutation's write**: the epoch keeps out every admission before a clear, and the
condition on the run every object that was got before it. -/
theorem Kept.stays_wrote {r r' : Registry} {m : Mutation} {epoch : Nat} (hk : Kept r h)
    (hc : Admitted A τ (.mutation m epoch) h)
    (happly : (Closure.mutation m epoch).apply env r = .ok (value, r')) :
    ClearedStays (h ++ [.wrote τ (.mutation m epoch) env value r r']) := by
  intro h1 h2 h3 τc owner envc valuec before after τ' m' epoch' env' value' before' after' id heq
  rw [← List.cons_append, ← append_assoc] at heq
  rcases append_singleton_split heq with ⟨rfl, hx, -⟩ | ⟨h4, rfl, rfl⟩
  · cases hx
    intro hbefore hgone hback
    obtain ⟨hadm, hready⟩ := hc.admitted m epoch rfl
    obtain ⟨-, hepoch, -, hchange⟩ := apply_mutation happly
    -- an admission before the clear carries an older epoch
    have hlate : Entry.admitted τ m epoch ∉ h1 := by
      intro hmem
      obtain ⟨a, b, rfl⟩ := append_of_mem hmem
      have hcount :=
        hk.accounted a (b ++ .wrote τc (.clearAll owner) envc valuec before after :: h2)
        τ m epoch (by simp)
      simp only [countP_append, countP_cons, Entry.clears, if_true] at hcount
      omega
    have hin : Entry.admitted τ m epoch ∈ h2 := by
      rcases mem_append.mp hadm with hmem | hmem
      · exact absurd hmem hlate
      · simpa using hmem
    -- the row that came back is the one the call was handed
    have hinserts : m.inserts = some id := by
      by_contra hne
      have hnone : r.jobs.get? id = none := by simpa [Dict.contains] using hgone
      have habsent := absent_change (absent_trim hnone) hne hchange
      rw [Dict.contains, habsent] at hback
      cases hback
    obtain ⟨a, b, hab⟩ := append_of_mem hin
    have hobtained : Entry.obtained τ ∉ h1 := by
      intro hmem
      have hfresh := hk.fresh (h1 ++ .wrote τc (.clearAll owner) envc valuec before after :: a) b
        τ m epoch (by rw [hab]; simp) id hinserts
      rw [stale_of_split hmem (by exact hbefore)] at hfresh
      cases hfresh
    refine ⟨⟨hobtained, ?_⟩, hlate, hin⟩
    rcases mem_append.mp (hready.obtained (by rw [hinserts]; rfl)) with hmem | hmem
    · exact absurd hmem hobtained
    · exact (mem_cons.mp hmem).resolve_left (by rintro ⟨⟩)
  · exact hk.stays h1 h2 h4 τc owner envc valuec before after τ' m' epoch' env' value'
      before' after' id
      (by simp)

theorem Kept.step {s t : World} (hk : Kept s.registry s.history)
    (hj : Justified A (FreshObject s.history) s t e) : Kept t.registry (s.history ++ [e]) := by
  cases hj with
  | obtained same =>
    rw [same]
    exact ⟨hk.accounted.append (Nat.le_refl _) (by simp), freshObject_append hk.fresh (by simp),
      hk.stays.append (by simp)⟩
  | @admitted τ m _ promised same =>
    rw [same]
    refine ⟨hk.accounted.append (Nat.le_refl _) ?_, freshObject_append hk.fresh ?_,
      hk.stays.append (by simp)⟩
    · rintro τ' m' epoch heq
      cases heq
      exact Nat.le_refl _
    · rintro τ' m' epoch heq
      cases heq
      exact promised
  | recorded _ _ same | returned _ _ same =>
    rw [same]
    exact ⟨hk.accounted.append (Nat.le_refl _) (by simp), freshObject_append hk.fresh (by simp),
      hk.stays.append (by simp)⟩
  | @wrote τ c env value rests applied =>
    refine ⟨hk.accounted.append ?_ (by simp), freshObject_append hk.fresh (by simp), ?_⟩
    · cases c with
      | clearAll owner =>
        rw [(apply_clearAll applied).1]
        exact Nat.le_refl _
      | mutation m epoch | beginFactoryFence owner | releaseFactoryFence owner =>
        exact apply_epoch applied
    · cases c with
      | mutation m epoch => exact hk.stays_wrote rests applied
      | clearAll owner | beginFactoryFence owner | releaseFactoryFence owner =>
        exact hk.stays.append (by simp)

def anyCall (_ : Request) : Bool := true

def batchStore : Machine BatchStore (Turn Answer Event) := batchMachine anyCall fun _ => True

theorem within_any (request : Request) : request.Within fun _ => True := by
  cases request with
  | processResults => exact ⟨fun _ _ _ => trivial, fun _ _ _ _ => trivial, fun _ _ _ _ => trivial⟩
  | save | createIfAbsent | claimSubmission => exact fun _ _ => trivial
  | failSubmission | completeSubmission | setInboxAudience | markInboxProjection =>
    exact fun _ => trivial
  | delete => exact fun _ => trivial
  | claimReentries => exact fun _ _ _ => trivial
  | failReentry | completeReentry => exact fun _ => trivial
  | beginFactoryFence | clearAll | releaseFactoryFence => trivial

/-- **Cleared rows stay cleared** in every run in which no `save` or `create_if_absent` is
admitted with an object from before the clear of its row. -/
theorem cleared_rows_stay {c : BatchStore} (h : batchStore.Reaches freshObjects c) :
    ClearedStays c.state.history := by
  have hkept : Kept c.state.registry c.state.history := by
    refine run_invariant (fun request _ => within_any request) (G := FreshObject)
      (I := fun r h => Kept r h) ?_ ?_ ?_ h
    · rintro c e τ answer m rfl hQ ha
      simp only [freshObjects, ha] at hQ
      exact hQ
    · intro r _
      refine ⟨?_, ?_, ?_⟩
      · intro h1 h2 τ m epoch heq
        simp at heq
      · intro h1 h2 τ m epoch heq
        simp at heq
      · intro h1 h2 h3 τc owner env value before after τ m epoch env' value' before' after' id heq
        simp at heq
    · intro s t e hk hj
      exact hk.step hj
  exact hkept.stays

instance (c : BatchStore) (turn : Turn Answer Event) : Decidable (freshObjects c turn) := by
  unfold freshObjects
  split <;> infer_instance

def sampleJob : BatchJob where
  id := "b"
  provider := "anthropic"
  providerBatchId := some "remote"
  state := .polling
  customIds := Dict.ofList [("r1", {}), ("r2", {})]
  model := "m"
  discount := .null
  submittedAt := some "2026-01-01T00:00:00Z"
  polledAt := none
  requests := []
  submitAttempts := 1
  lastError := none
  submissionLeaseToken := none
  submissionLeaseAtMillis := 0
  candidates := Dict.ofList [("r1", .null)]
  inboxAudienceState := "legacy"
  inboxAudience := []
  inboxAudienceTruncated := 0
  summaryTotal := 0
  summaryRetrieved := 0
  summaryFailed := 0
  terminalCompacted := false

def sampleWorld : World where
  registry := ⟨Dict.ofList [("b", sampleJob)], "", 0⟩
  rev := 1
  jobsFence := ""
  ledger := Dict.empty
  history := []

def sampleEnv : Env := ⟨fun n => String.ofList (List.replicate (n + 1) 'x'), id⟩

def sampleAnswer : Answer := ⟨.answered, 0, sampleEnv⟩

/-- `n` accesses of a call, all answered. -/
def accesses (τ n : Nat) : List (Turn Answer Event) := List.replicate n (.step τ sampleAnswer)

/-- A clear, and a `save` whose job was got afterwards. -/
def savedAfter : List (Turn Answer Event) :=
  [.outside (.call (.clearAll none))] ++ accesses 0 3 ++
    [.outside (.call (.save fun _ => some sampleJob))] ++ accesses 1 7

/-- A `save` whose job was loaded before a clear, and is admitted after it. -/
def savedAcross : List (Turn Answer Event) :=
  [.outside (.call (.save fun jobs => jobs.get? "b"))] ++ accesses 0 1 ++
    [.outside (.call (.clearAll none))] ++ accesses 1 3 ++ accesses 0 6

set_option maxRecDepth 10000 in
theorem cleared_rows_stay_of_fresh : ∃ c, batchStore.Reaches freshObjects c ∧
    c.state.registry.jobs.contains "b" = true ∧ ClearedStays c.state.history := by
  have hall : batchStore.Throughout freshObjects ⟨sampleWorld, []⟩ savedAfter := by
    decide
  have hrun : ((batchStore.run ⟨sampleWorld, []⟩ savedAfter).any fun c =>
      c.state.registry.jobs.contains "b") = true := by decide
  obtain ⟨c, hc, -, hrow⟩ := reaches_of_run batchStore _ _ _ ⟨⟨rfl, trivial⟩, rfl⟩ hrun
  have hreach : batchStore.Reaches freshObjects c :=
    ⟨_, _, ⟨⟨rfl, trivial⟩, rfl⟩, hall, hc⟩
  exact ⟨c, hreach, hrow, cleared_rows_stay hreach⟩

def broughtBack : List Entry → Bool
  | [.obtained 0, .wrote _ (.clearAll _) _ _ before _, .admitted 0 _ _,
      .wrote 0 (.mutation _ _) _ _ before' after'] =>
      before.jobs.contains "b" && !before'.jobs.contains "b" && after'.jobs.contains "b"
  | _ => false

theorem not_stays_of_broughtBack (hb : broughtBack h = true) :
    ¬ ClearedStays h := by
  intro hstays
  unfold broughtBack at hb
  split at hb
  · simp only [Bool.and_eq_true, Bool.not_eq_true'] at hb
    obtain ⟨⟨hbefore, hgone⟩, hback⟩ := hb
    have hlate := hstays [.obtained 0] [.admitted 0 _ _] [] _ _ _ _ _ _ 0 _ _ _ _ _ _ "b" rfl
      hbefore hgone hback
    exact hlate.1.1 mem_cons_self
  · cases hb

set_option maxRecDepth 10000 in
/-- **The cleared row comes back**: loaded before the clear, saved after it. -/
theorem cleared_row_saved_again :
    ∃ c, batchStore.Reaches anyStep c ∧ ¬ ClearedStays c.state.history := by
  have hrun : ((batchStore.run ⟨sampleWorld, []⟩ savedAcross).any fun c =>
      broughtBack c.state.history) = true := by decide
  obtain ⟨c, -, hc, hback⟩ := reaches_of_run batchStore _ _ _ ⟨⟨rfl, trivial⟩, rfl⟩ hrun
  exact ⟨c, hc, not_stays_of_broughtBack hback⟩

end AgenticKibana.Batch
