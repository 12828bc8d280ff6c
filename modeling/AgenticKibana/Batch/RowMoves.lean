import AgenticKibana.Batch.Runs

/-!
# What result folding does to a row

`process_results`, `claim_reentries`, `fail_reentry` and `complete_reentry` change the tracking
entry of a custom id in six ways (`EntryMove`); a row either keeps its entries otherwise or is
compacted and loses them all (`RowMove`), and only a compacted row is evicted (`Evolves`).  What
survives these moves survives every mutation of result folding (`Stable.evolves`).
-/

namespace AgenticKibana.Batch

open AgenticKibana.Library Relation List

/-- How an entry changes; `closed` says that its row is compacted, `final` that its lease
may be finalised. -/
inductive EntryMove (closed final : Prop) (e : Tracking) : Tracking → Prop
  | leased {token : String} {nowMs : Nat} {state : String} (opened : ¬ closed)
      (unretrieved : e.isRetrieved = false) :
      EntryMove closed final e { e with
        recordingToken := some token
        recordingAtMillis := some nowMs
        pendingResultState := some state }
  | ledgerFailed {token message : String} (held : e.recordingToken = some token)
      (unretrieved : e.isRetrieved = false) :
      EntryMove closed final e { e.unleased with lastError := some message }
  | finalised {token : String} {state : Option (Option String)} {reentry : Option String}
      (may : final) (held : e.recordingToken = some token) (unretrieved : e.isRetrieved = false)
      (reentry_ne : reentry ≠ some "complete") :
      EntryMove closed final e { e.unleased with
        retrieved := some true
        resultState := state
        lastError := none
        reentryState := reentry }
  | claimed {token : String} {nowMs : Nat} (retrieved : e.isRetrieved = true)
      (open_ : e.reentryState ≠ some "complete") :
      EntryMove closed final e { e with
        reentryState := some "processing"
        reentryToken := some token
        reentryAtMillis := some nowMs }
  | reentryFailed {token message : String} (held : e.reentryToken = some token) :
      EntryMove closed final e { e.unclaimed with
        reentryState := some "pending"
        lastError := some message }
  | completed {token : String} (held : e.reentryToken = some token) :
      EntryMove closed final e { e.unclaimed with
        reentryState := some "complete"
        lastError := none }

theorem EntryMove.mono {closed final final' : Prop} {e e' : Tracking} (hf : final → final')
    (h : EntryMove closed final e e') : EntryMove closed final' e e' := by
  cases h with
  | leased opened unretrieved => exact .leased opened unretrieved
  | ledgerFailed held unretrieved => exact .ledgerFailed held unretrieved
  | finalised may held unretrieved ne => exact .finalised (hf may) held unretrieved ne
  | claimed retrieved open_ => exact .claimed retrieved open_
  | reentryFailed held => exact .reentryFailed held
  | completed held => exact .completed held

section Folds

variable {uuid : Nat → String} {nowMs : Nat} {closed final : Prop}

/-- The entry of `cid` in a tracking map. -/
def entryIn (tracking : Dict String Tracking) (cid : String) : Tracking :=
  (tracking.get? cid).getD {}

theorem entryIn_set (tracking : Dict String Tracking) (cid cid' : String) (e : Tracking) :
    entryIn (tracking.set cid e) cid' = if cid' = cid then e else entryIn tracking cid' := by
  unfold entryIn
  rw [Dict.get?_set]
  split <;> rfl

variable {tracking : Dict String Tracking} {cid : String}

theorem entryIn_set_moves {e : Tracking} (h : EntryMove closed final (entryIn tracking cid) e)
    (cid' : String) : ReflTransGen (EntryMove closed final) (entryIn tracking cid')
      (entryIn (tracking.set cid e) cid') := by
  rw [entryIn_set]
  split
  · rename_i heq
    rw [heq]
    exact .single h
  · exact .refl

theorem leaseEntries_moves (hopen : ¬ closed) (states : List (String × String)) (n : Nat)
    (tracking : Dict String Tracking) (claimed : Dict String String) (cid : String) :
    ReflTransGen (EntryMove closed final) (entryIn tracking cid)
      (entryIn (leaseEntries uuid nowMs states n tracking claimed).1 cid) := by
  induction states generalizing n tracking claimed with
  | nil => exact .refl
  | cons state states ih =>
    obtain ⟨cid0, rstate⟩ := state
    simp only [leaseEntries]
    split
    · exact ih n tracking claimed
    · rename_i hfree
      rw [Bool.not_eq_true, Bool.or_eq_false_iff] at hfree
      refine .trans ?_ (ih (n + 1) _ _)
      exact entryIn_set_moves (.leased hopen hfree.1) cid

theorem claimEntries_moves (candidates : Candidates) (wanted : List String) (n : Nat)
    (tracking : Dict String Tracking) (claimed : Dict String String) (cid : String) :
    ReflTransGen (EntryMove closed final) (entryIn tracking cid)
      (entryIn (claimEntries uuid nowMs candidates wanted n tracking claimed).1 cid) := by
  induction wanted generalizing n tracking claimed with
  | nil => exact .refl
  | cons cid0 wanted ih =>
    simp only [claimEntries]
    split
    · exact ih n tracking claimed
    · rename_i hfree
      simp only [Bool.not_eq_true, Bool.or_eq_false_iff, Bool.not_eq_false', beq_eq_false_iff_ne]
        at hfree
      obtain ⟨⟨⟨hretrieved, -⟩, hstate⟩, -⟩ := hfree
      refine .trans ?_ (ih (n + 1) _ _)
      refine entryIn_set_moves (.claimed hretrieved ?_) cid
      intro hcomplete
      refine hstate ?_
      have hentry : ((tracking.get? cid0).getD {}).reentryState = some "complete" := hcomplete
      rw [hentry]
      decide

theorem claimEntries_granted {candidates : Candidates} {wanted : List String} {n : Nat}
    {claimed : Dict String String}
    (hcid : (claimEntries uuid nowMs candidates wanted n tracking claimed).2.contains cid = true) :
    claimed.contains cid = true ∨ ((entryIn tracking cid).isRetrieved = true ∧
      (entryIn tracking cid).reentryState ≠ some "complete") := by
  induction wanted generalizing n tracking claimed with
  | nil => exact .inl hcid
  | cons cid0 wanted ih =>
    simp only [claimEntries] at hcid
    split at hcid
    · exact ih hcid
    · rename_i hfree
      simp only [Bool.not_eq_true, Bool.or_eq_false_iff, Bool.not_eq_false', beq_eq_false_iff_ne]
        at hfree
      obtain ⟨⟨⟨hretrieved, -⟩, hstate⟩, -⟩ := hfree
      by_cases heq : cid = cid0
      · subst heq
        refine .inr ⟨hretrieved, ?_⟩
        intro hcomplete
        refine hstate ?_
        have hentry : ((tracking.get? cid).getD {}).reentryState = some "complete" := hcomplete
        rw [hentry]
        decide
      · rcases ih hcid with hold | hnew
        · refine .inl ?_
          rwa [Dict.contains, Dict.get?_set_of_ne _ _ heq] at hold
        · rw [entryIn_set, if_neg heq] at hnew
          exact .inr hnew

end Folds

/-! ### Rows -/

/-- How a row changes, seen from the entry of `cid`. -/
inductive RowMove (cid : String) (final : Prop) (job job' : BatchJob) : Prop
  | moved (id : job'.id = job.id) (closed : job'.terminalCompacted = job.terminalCompacted)
      (entry : ReflTransGen (EntryMove (job.terminalCompacted = true) final)
        (job.entry cid) (job'.entry cid))
  | scrubbed (id : job'.id = job.id) (was : job.terminalCompacted = false)
      (closed : job'.terminalCompacted = true) (entry : job'.entry cid = {})

section Rows

variable {cid : String} {final : Prop} {job job' : BatchJob}

theorem RowMove.refl : RowMove cid final job job := .moved rfl rfl .refl

theorem RowMove.mono {final' : Prop} (hf : final → final') (h : RowMove cid final job job') :
    RowMove cid final' job job' := by
  cases h with
  | moved id closed entry =>
    exact .moved id closed (ReflTransGen.mono (fun _ _ h => EntryMove.mono hf h) _ _ entry)
  | scrubbed id was closed entry => exact .scrubbed id was closed entry

theorem RowMove.id_eq (h : RowMove cid final job job') : job'.id = job.id := by
  cases h with
  | moved id | scrubbed id => exact id

theorem compactTerminal_cases (job : BatchJob) : job.compactTerminal = job ∨
    (job.terminalCompacted = false ∧ job.compactTerminal.id = job.id ∧
      job.compactTerminal.terminalCompacted = true ∧
        ∀ cid, job.compactTerminal.entry cid = {}) := by
  unfold BatchJob.compactTerminal
  split
  · exact .inl rfl
  · rename_i hterminal
    rw [Bool.not_eq_true, Bool.or_eq_false_iff] at hterminal
    exact .inr ⟨hterminal.2, rfl, rfl, fun _ => rfl⟩

theorem RowMove.compact (h : RowMove cid final job job')
    (hopen : job'.terminalCompacted = job.terminalCompacted) :
    RowMove cid final job job'.compactTerminal := by
  rcases compactTerminal_cases job' with heq | ⟨hwas, hid, hclosed, hentry⟩
  · rw [heq]
    exact h
  · exact .scrubbed (hid.trans h.id_eq) (hopen ▸ hwas) hclosed (hentry cid)

theorem compactTerminal_moves (job : BatchJob) : RowMove cid final job job.compactTerminal :=
  RowMove.refl.compact rfl

variable {cid0 token state : String}

theorem setEntry_moves {e : Tracking}
    (he : EntryMove (job.terminalCompacted = true) final (job.entry cid0) e)
    (hid : job'.id = job.id) (hclosed : job'.terminalCompacted = job.terminalCompacted)
    (hids : job'.customIds = job.customIds.set cid0 e) : RowMove cid final job job' := by
  refine .moved hid hclosed ?_
  have hentry : job'.entry cid = entryIn (job.customIds.set cid0 e) cid := by
    rw [← hids]
    rfl
  rw [hentry]
  exact entryIn_set_moves he cid

variable {message : String}

theorem failLedger_moves (h : job.failLedger cid0 token message = some job') :
    RowMove cid final job job' := by
  unfold BatchJob.failLedger at h
  dsimp only at h
  split at h
  · cases h
  · rename_i hheld
    rw [not_or, not_not, Bool.not_eq_true] at hheld
    cases h
    exact setEntry_moves (.ledgerFailed hheld.1 hheld.2) rfl rfl rfl

theorem finalize_held (h : job.finalize cid0 token state = some job') :
    (job.entry cid0).recordingToken = some token ∧ (job.entry cid0).isRetrieved = false := by
  unfold BatchJob.finalize at h
  dsimp only at h
  split at h
  · cases h
  · rename_i hheld
    rw [not_or, not_not, Bool.not_eq_true] at hheld
    exact hheld

theorem finalize_eq (h : job.finalize cid0 token state = some job') :
    ∃ recorded : BatchJob, recorded.id = job.id ∧
      recorded.terminalCompacted = job.terminalCompacted ∧
      recorded.customIds = job.customIds.set cid0 (job.finalEntry cid0 state) ∧
      (job' = recorded ∨ job' = recorded.compactTerminal) := by
  unfold BatchJob.finalize at h
  dsimp only at h
  split at h
  · cases h
  · simp only [Option.some.injEq] at h
    split at h
    · refine ⟨_, ?_, ?_, ?_, .inr h.symm⟩ <;> rfl
    · refine ⟨_, ?_, ?_, ?_, .inl h.symm⟩ <;> rfl

theorem finalEntry_moves {closed : Prop} (hheld : (job.entry cid0).recordingToken = some token)
    (hun : (job.entry cid0).isRetrieved = false) (hfinal : final) :
    EntryMove closed final (job.entry cid0) (job.finalEntry cid0 state) := by
  refine .finalised hfinal hheld hun ?_
  split
  · simp
  · simp

theorem finalize_moves (hfinal : cid = cid0 → final)
    (h : job.finalize cid0 token state = some job') : RowMove cid final job job' := by
  obtain ⟨hheld, hun⟩ := finalize_held h
  obtain ⟨recorded, hid, hclosed, hids, hjob⟩ := finalize_eq h
  have hmove : RowMove cid final job recorded := by
    by_cases hcid : cid = cid0
    · exact setEntry_moves (finalEntry_moves hheld hun (hfinal hcid)) hid hclosed hids
    · refine .moved hid hclosed ?_
      have hentry : recorded.entry cid = job.entry cid := by
        unfold BatchJob.entry
        rw [hids, Dict.get?_set_of_ne _ _ hcid]
      rw [hentry]
  rcases hjob with rfl | rfl
  · exact hmove
  · exact hmove.compact hclosed

theorem failReentry_moves (h : job.failReentry cid0 token message = some job') :
    RowMove cid final job job' := by
  unfold BatchJob.failReentry at h
  dsimp only at h
  split at h
  · cases h
  · rename_i hheld
    rw [not_not] at hheld
    cases h
    exact setEntry_moves (.reentryFailed hheld) rfl rfl rfl

theorem completeReentry_moves
    (h : job.completeReentry cid0 token = some job') : RowMove cid final job job' := by
  unfold BatchJob.completeReentry at h
  dsimp only at h
  split at h
  · cases h
  · rename_i hheld
    rw [not_not] at hheld
    simp only [Option.some.injEq] at h
    split at h
    · rw [← h]
      have hmove : RowMove cid final job { job.setEntry cid0 { (job.entry cid0).unclaimed with
          reentryState := some "complete", lastError := none } with
            state := .retrieved, lastError := none } :=
        setEntry_moves (.completed hheld) rfl rfl rfl
      exact hmove.compact rfl
    · rw [← h]
      exact setEntry_moves (.completed hheld) rfl rfl rfl

end Rows

/-! ### The registry -/

inductive Evolves (cid : String) (final : Prop) : Option BatchJob → Option BatchJob → Prop
  | absent : Evolves cid final none none
  | kept {job job' : BatchJob} (moves : ReflTransGen (RowMove cid final) job job') :
      Evolves cid final (some job) (some job')
  | evicted {job job' : BatchJob} (moves : ReflTransGen (RowMove cid final) job job')
      (closed : job'.terminalCompacted = true) : Evolves cid final (some job) none

section Registry

variable {cid : String} {final : Prop} {jobs : Jobs}

theorem Evolves.refl (row : Option BatchJob) : Evolves cid final row row := by
  cases row with
  | none => exact .absent
  | some job => exact .kept .refl

theorem Evolves.single {job job' : BatchJob} (h : RowMove cid final job job') :
    Evolves cid final (some job) (some job') :=
  .kept (.single h)

theorem Evolves.mono {final' : Prop} {row row' : Option BatchJob} (hf : final → final')
    (h : Evolves cid final row row') : Evolves cid final' row row' := by
  cases h with
  | absent => exact .absent
  | kept moves => exact .kept (ReflTransGen.mono (fun _ _ h => RowMove.mono hf h) _ _ moves)
  | evicted moves closed =>
    exact .evicted (ReflTransGen.mono (fun _ _ h => RowMove.mono hf h) _ _ moves) closed

theorem Evolves.trans {row row' row'' : Option BatchJob} (h : Evolves cid final row row')
    (h' : Evolves cid final row' row'') : Evolves cid final row row'' := by
  cases h with
  | absent => exact h'
  | kept moves =>
    cases h' with
    | kept moves' => exact .kept (moves.trans moves')
    | evicted moves' closed => exact .evicted (moves.trans moves') closed
  | evicted moves closed =>
    cases h' with
    | absent => exact .evicted moves closed

def Keyed (jobs : Jobs) : Prop := ∀ id job, jobs.get? id = some job → job.id = id

theorem get?_popAll (rows : List BatchJob) (id : String) :
    (popAll jobs rows).get? id = if id ∈ rows.map BatchJob.id then none else jobs.get? id := by
  induction rows generalizing jobs with
  | nil => rfl
  | cons row rows ih =>
    have hstep := @ih (jobs.erase row.id)
    simp only [popAll, foldl_cons, map_cons, mem_cons] at hstep ⊢
    rw [hstep, Dict.get?_erase]
    by_cases hid : id = row.id
    · simp [hid]
    · simp [hid]

theorem trim_evolves (hk : Keyed jobs) (id : String) :
    Evolves cid final (jobs.get? id) ((trim jobs).get? id) := by
  have hget : ((jobs.mapValues fun _ job => job.compactTerminal)).get? id =
      (jobs.get? id).map BatchJob.compactTerminal := Dict.get?_mapValues _ _ _
  have hcompact : Evolves cid final (jobs.get? id)
      ((jobs.mapValues fun _ job => job.compactTerminal).get? id) := by
    rw [hget]
    cases jobs.get? id with
    | none => exact .absent
    | some job => exact .single (compactTerminal_moves job)
  unfold trim
  dsimp only
  split
  · rw [get?_popAll]
    split
    · rename_i hmem
      obtain ⟨old, hold, hid⟩ := List.mem_map.mp hmem
      have hvalues := mem_of_mem_take hold
      rw [oldestFirst, mem_insertionSort, mem_filter] at hvalues
      obtain ⟨key, hkey⟩ := Dict.mem_values_iff.mp hvalues.1
      rw [Dict.get?_mapValues, Option.map_eq_some_iff] at hkey
      obtain ⟨job, hjob, rfl⟩ := hkey
      have hsame : key = id := by
        rw [← hid, (compactTerminal_moves job : RowMove cid final job _).id_eq]
        exact (hk key job hjob).symm
      rw [hsame] at hjob
      rw [hjob]
      exact .evicted (.single (compactTerminal_moves job)) hvalues.2
    · exact hcompact
  · exact hcompact

def Mutation.folds : Mutation → Bool
  | .leaseClaim .. | .failLedgerLease .. | .finalizeLease .. | .claimReentries .. | .failReentry ..
  | .completeReentry .. => true
  | _ => false

variable {id jobId : String}

theorem set_evolves {job job' : BatchJob} (hrow : jobs.get? jobId = some job)
    (hmove : id = jobId → RowMove cid final job job') :
    Evolves cid final (jobs.get? id) ((jobs.set jobId job').get? id) := by
  rw [Dict.get?_set]
  split
  · rename_i heq
    rw [heq, hrow]
    exact .single (hmove heq)
  · exact .refl _

theorem onJob_evolves {f : BatchJob → Option BatchJob}
    (hmove : ∀ job job', id = jobId → f job = some job' → RowMove cid final job job') :
    Evolves cid final (jobs.get? id) ((onJob jobs jobId f).2.get? id) := by
  unfold onJob
  split
  · exact .refl _
  · rename_i job hjob
    split
    · exact .refl _
    · rename_i job' hjob'
      exact set_evolves hjob fun heq => hmove job job' heq hjob'

theorem onLeases_evolves {refuses : BatchJob → Bool}
    {f : BatchJob → Dict String Tracking × Dict String String}
    (hmove : ∀ job, refuses job = false →
      ReflTransGen (EntryMove (job.terminalCompacted = true) final) (job.entry cid)
        (entryIn (f job).1 cid)) :
    Evolves cid final (jobs.get? id) ((onLeases jobs jobId refuses f).2.get? id) := by
  unfold onLeases
  split
  · exact .refl _
  · rename_i job hjob
    split
    · exact .refl _
    · rename_i hrefuses
      dsimp only
      split
      · exact .refl _
      · refine set_evolves hjob fun _ => .moved rfl rfl ?_
        exact hmove job (by simpa using hrefuses)

/-- **What a mutation of result folding does to a row.** -/
theorem change_evolves {env : Env} {m : Mutation} {value : Value} {jobs' : Jobs}
    (hm : m.folds = true) (h : m.change env jobs = .ok (value, jobs')) :
    Evolves cid (m.finalises = some (id, cid)) (jobs.get? id) (jobs'.get? id) := by
  cases m with
  | leaseClaim jobId states nowMs =>
    rw [ok_snd h]
    refine onLeases_evolves fun job hopen => leaseEntries_moves ?_ _ _ _ _ _
    rw [hopen]
    exact Bool.false_ne_true
  | failLedgerLease jobId cid0 token error =>
    rw [ok_snd h]
    exact onJob_evolves fun _ _ _ => failLedger_moves
  | finalizeLease jobId cid0 token state =>
    rw [ok_snd h]
    refine onJob_evolves fun _ _ hid => finalize_moves ?_
    intro hcid
    rw [Mutation.finalises, hid, hcid]
  | claimReentries jobId wanted nowMs =>
    rw [ok_snd h]
    exact onLeases_evolves fun job _ => claimEntries_moves _ _ _ _ _ _
  | failReentry jobId cid0 token error =>
    rw [ok_snd h]
    exact onJob_evolves fun _ _ _ => failReentry_moves
  | completeReentry jobId cid0 token =>
    rw [ok_snd h]
    exact onJob_evolves fun _ _ _ => completeReentry_moves
  | _ => cases hm

end Registry

structure Stable (final : Prop) (Φ : Bool → Tracking → Prop) : Prop where
  entry : ∀ closed e e', EntryMove (closed = true) final e e' → Φ closed e → Φ closed e'
  scrub : ∀ e, Φ false e → Φ true {}

def OnRow (Φ : Bool → Tracking → Prop) (cid : String) (row : Option BatchJob) : Prop :=
  ∀ job, row = some job → Φ job.terminalCompacted (job.entry cid)

section Stable

variable {final : Prop} {Φ : Bool → Tracking → Prop} {cid : String}

theorem Stable.row (hΦ : Stable final Φ) {job job' : BatchJob} (h : RowMove cid final job job')
    (hjob : Φ job.terminalCompacted (job.entry cid)) :
    Φ job'.terminalCompacted (job'.entry cid) := by
  cases h with
  | moved id closed entry =>
    have hlast : ∀ e, ReflTransGen (EntryMove (job.terminalCompacted = true) final)
        (job.entry cid) e → Φ job.terminalCompacted e := by
      intro e he
      induction he with
      | refl => exact hjob
      | tail _ hmove ih => exact hΦ.entry _ _ _ hmove ih
    rw [closed]
    exact hlast _ entry
  | scrubbed id was closed entry =>
    rw [closed, entry]
    rw [was] at hjob
    exact hΦ.scrub _ hjob

theorem Stable.rows (hΦ : Stable final Φ) {job job' : BatchJob}
    (h : ReflTransGen (RowMove cid final) job job')
    (hjob : Φ job.terminalCompacted (job.entry cid)) :
    Φ job'.terminalCompacted (job'.entry cid) := by
  induction h with
  | refl => exact hjob
  | tail _ hmove ih => exact hΦ.row hmove ih

theorem Stable.evolves (hΦ : Stable final Φ) {row row' : Option BatchJob}
    (h : Evolves cid final row row') (hrow : OnRow Φ cid row) : OnRow Φ cid row' := by
  cases h with
  | absent => exact hrow
  | kept moves =>
    intro job' heq
    cases heq
    exact hΦ.rows moves (hrow _ rfl)
  | evicted moves closed => exact fun job' heq => nomatch heq

end Stable

end AgenticKibana.Batch
