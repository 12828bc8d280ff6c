import AgenticKibana.Jobs.Artifacts
import AgenticKibana.Jobs.FenceRecovery

/-!
# The history of a job

Any number of processes run the operations over one registry document.  The document
stays within the store's bounds, and the transitions of a row, which are what the
runner audits, are a log: numbered from one without a gap, never rewritten or cut,
and closed when the job has ended.  Marking an entry as audited is all that changes
it.
-/

namespace AgenticKibana.Jobs

open AgenticKibana.Library Option

variable {env : Env} {op : Op} {val : Val} {d : Registry} {doc doc' : Document} {j j' k : Job}
  {s t : CellState} {es : List CellEvent} {id : String}

/-- The log of a row: its counter, and the entries without the marks of the audit. -/
def Job.log (j : Job) : Nat × List (Nat × String × String) :=
  (j.transitionSeq, j.transitions.map fun t => (t.seq, t.name, t.summary))

/-- The log `l'` is `l`, continued by `news`. -/
structure Continues (l l' : Nat × List (Nat × String × String))
    (news : List (Nat × String × String)) : Prop where
  entries : l'.2 = l.2 ++ news
  numbered : news.map Prod.fst = List.range' (l.1 + 1) news.length
  seq : l'.1 = l.1 + news.length

variable {l l' l'' : Nat × List (Nat × String × String)} {news more : List (Nat × String × String)}

theorem Continues.of_eq (h : l' = l) : Continues l l' [] := by
  subst h
  exact ⟨(List.append_nil _).symm, rfl, rfl⟩

theorem Continues.trans (h : Continues l l' news) (h' : Continues l' l'' more) :
    Continues l l'' (news ++ more) where
  entries := by rw [h'.entries, h.entries, List.append_assoc]
  numbered := by
    rw [List.map_append, h.numbered, h'.numbered, h.seq, List.length_append,
      ← List.range'_append_1]
    congr 2
    omega
  seq := by
    rw [h'.seq, h.seq, List.length_append]
    omega

theorem Continues.transition (h : Continues l k.log news) (name summary : String) :
    Continues l (k.transition name summary).log
      (news ++ [(k.transitionSeq + 1, name, sliceTo 500 summary)]) :=
  h.trans ⟨by simp [Job.log, Job.transition], rfl, rfl⟩

/-! ### What a step appends -/

theorem entries_auditFirst (seq : Nat) (ts : List JobTransition) :
    ((Job.auditFirst seq ts).map fun t => (t.seq, t.name, t.summary)) =
      ts.map fun t => (t.seq, t.name, t.summary) := by
  induction ts with
  | nil => rfl
  | cons t ts ih =>
    rw [Job.auditFirst]
    split
    · rfl
    · rw [List.map_cons, ih, List.map_cons]

theorem recoverItems_log (j : Job) : j.recoverItems.log = j.log := by
  unfold Job.recoverItems
  split
  · rfl
  · exact Job.foldl_appendFailure (P := fun j' => j'.log = j.log) Job.interruptedReason
      (fun _ _ h => h) j.ambiguous rfl

theorem compactTerminal_log {result : Option JobResult} (h : j.compactTerminal result = .ok j') :
    j'.log = j.log := by
  obtain ⟨params, -, rfl⟩ := Job.compactTerminal_eq h
  rfl

theorem continues_claim (j : Job) (env : Env) (owner : String) (leaseMillis : Nat) :
    ∃ news, Continues j.log (j.claim env owner leaseMillis).log news := by
  unfold Job.claim
  by_cases hstart : j.startedAt.isNone = true
  · simp only [hstart, if_true]
    exact ⟨_, Continues.transition (Continues.of_eq rfl) _ _⟩
  · simp only [hstart, Bool.false_eq_true, if_false]
    split
    · have hrecovered : ∀ k : Job, k.log = j.log → Continues j.log k.recoverItems.recount.log [] :=
        fun k hk => Continues.of_eq ((recoverItems_log k).trans hk)
      refine ⟨_, Continues.transition (hrecovered _ ?_) _ _⟩
      split <;> rfl
    · exact ⟨[], Continues.of_eq rfl⟩

theorem continues_cancelAsked (j : Job) : ∃ news, Continues j.log j.cancelAsked.log news := by
  unfold Job.cancelAsked
  split
  · exact ⟨_, Continues.of_eq rfl⟩
  · exact ⟨_, Continues.transition (Continues.of_eq rfl) _ _⟩

theorem HeldStep.continues (h : HeldStep env j op j') :
    ∃ news, Continues j.log j'.log news := by
  cases h with
  | @finished _ _ status _ jobError _ _ hended =>
    obtain ⟨compacted, hcompact, rfl⟩ := Job.finish_eq hended
    have hlog : compacted.log = j.log := by
      rw [compactTerminal_log hcompact, Job.ended]
      split <;> rfl
    exact ⟨_, Continues.transition (Continues.of_eq hlog) _ _⟩
  | begun =>
    unfold Job.beginItem
    split <;> exact ⟨[], Continues.of_eq rfl⟩
  | completed =>
    unfold Job.completeItem
    split
    · exact ⟨[], Continues.of_eq rfl⟩
    · exact ⟨[], Continues.of_eq rfl⟩
    · split <;> exact ⟨[], Continues.of_eq rfl⟩
  | reserved =>
    unfold Job.reserveArtifact
    split <;> exact ⟨[], Continues.of_eq rfl⟩
  | cleared =>
    unfold Job.clearPendingArtifact
    split <;> exact ⟨[], Continues.of_eq rfl⟩
  | _ => exact ⟨[], Continues.of_eq rfl⟩

/-- A step continues the log of its row, and appends nothing to that of an ended job. -/
theorem RowStep.continues (h : RowStep env d op id j j') :
    ∃ news, Continues j.log j'.log news ∧ (j.status.terminal = true → news = []) := by
  have hopen : (∃ news, Continues j.log j'.log news) → j.status.terminal = false →
      ∃ news, Continues j.log j'.log news ∧ (j.status.terminal = true → news = []) := by
    rintro ⟨news, hnews⟩ hterm
    refine ⟨news, hnews, fun hended => ?_⟩
    rw [hterm] at hended
    cases hended
  have hsame : j'.log = j.log →
      ∃ news, Continues j.log j'.log news ∧ (j.status.terminal = true → news = []) :=
    fun hlog => ⟨[], Continues.of_eq hlog, fun _ => rfl⟩
  cases h with
  | held _ hholds hstep => exact hopen hstep.continues (by rw [hholds.running]; rfl)
  | @claimed owner leaseMillis _ hcand =>
    have hclaim := (List.mem_filter.mp hcand).2
    simp only [Job.claimable, Bool.and_eq_true, Bool.or_eq_true, decide_eq_true_eq] at hclaim
    refine hopen (continues_claim j env owner leaseMillis) ?_
    rcases hclaim.2 with hq | ⟨hr, -⟩
    · rw [hq]
      rfl
    · rw [hr]
      rfl
  | cancelled _ hterm hnext =>
    refine hopen ?_ hterm
    rcases Job.requestCancel_eq hnext with ⟨-, compacted, hcompact, rfl⟩ | ⟨-, rfl⟩
    · obtain ⟨news, hnews⟩ := continues_cancelAsked j
      exact ⟨_, Continues.transition ((compactTerminal_log hcompact).symm ▸ hnews) _ _⟩
    · exact continues_cancelAsked j
  | stopped _ _ hterm hnext =>
    refine hopen ?_ hterm
    rcases Job.stopForFence_eq hnext with ⟨-, compacted, hcompact, rfl⟩ | ⟨-, rfl⟩
    · exact ⟨_, Continues.transition (Continues.of_eq (compactTerminal_log hcompact)) _ _⟩
    · exact ⟨[], Continues.of_eq rfl⟩
  | @audited seq =>
    refine hsame ?_
    rw [Job.log, Job.markTransitionAudited, entries_auditFirst]
    rfl
  | unaudited =>
    refine hsame ?_
    simp only [Job.log, Job.markTransitionsUnaudited, List.map_map]
    rfl
  | _ => exact hsame rfl

/-! ### Runs -/

theorem document_invariant {D : Document → Prop} (hinit : D emptyDocument)
    (hstep : ∀ doc doc' op env val, Sound doc → D doc → op.admissible env doc = true →
      Outcome env doc.registry op val doc'.registry → doc'.issued = doc.issued ++ op.draws env →
      D doc')
    (h : registryCell.Reaches Machine.anyStep s) : D s.doc := by
  obtain ⟨s0, es, hs0, hall, hrun⟩ := h
  exact document_run hstep ⟨s0, [], hs0, trivial, rfl⟩ (hs0.1 ▸ hinit) hrun

/-- **The registry stays within its bounds**, whatever the processes that share it do:
the rows, the bytes their active parameters take, and the artifacts they keep. -/
theorem registry_bounded (h : registryCell.Reaches Machine.anyStep s) :
    s.doc.registry.jobs.size ≤ maxJobs ∧
      s.doc.registry.jobs.total activeParamSize ≤ maxRegistryParamBytes ∧
      s.doc.registry.retainedCount ≤ maxRetainedArtifacts := by
  have hbounds : Bounded s.doc.registry ∧ s.doc.registry.retainedCount ≤ maxRetainedArtifacts := by
    refine document_invariant (D := fun doc => Bounded doc.registry ∧
      doc.registry.retainedCount ≤ maxRetainedArtifacts) ?_ ?_ h
    · exact ⟨⟨Nat.zero_le _, Nat.zero_le _⟩, Nat.zero_le _⟩
    · rintro doc doc' op env val hs ⟨hb, hcount⟩ hadm ho -
      exact ⟨bounded_step hs hb hadm ho, retainedCount_step hs hcount ho⟩
  exact ⟨hbounds.1.size, hbounds.1.params, hbounds.2⟩

def oneReset : List CellEvent :=
  CasCell.solo (I := registryInterface) 0 (.create (sampleReset "job-1" "now" 'a'))
    (sampleEnv 0 "u")

theorem registry_bounded_of_one_reset :
    ∃ s : CellState, s.doc.registry.jobs.size = 1 ∧
      s.doc.registry.jobs.total activeParamSize ≤ maxRegistryParamBytes := by
  have hrun : (registryCell.run quietCell oneReset).any
      (fun s => s.doc.registry.jobs.size == 1) = true := by decide
  obtain ⟨s, hrun, hsize⟩ := Option.any_eq_true _ _ |>.mp hrun
  have h : registryCell.Reaches Machine.anyStep s :=
    ⟨quietCell, _, ⟨rfl, rfl, fun _ => rfl⟩, registryCell.throughout_anyStep _ _, hrun⟩
  exact ⟨s, eq_of_beq hsize, (registry_bounded h).2.1⟩

def Numbered (d : Registry) : Prop :=
  ∀ id j, d.jobs.get? id = some j → j.log.2.map Prod.fst = List.range' 1 j.log.1

theorem numbered_step (hs : Sound doc) (hn : Numbered doc.registry)
    (ho : Outcome env doc.registry op val doc'.registry) : Numbered doc'.registry := by
  intro id j' hj'
  cases outcome_rows hs.keyed hs.keys ho hj' with
  | stepped hj hstep =>
    obtain ⟨news, hnews, -⟩ := hstep.continues
    rw [hnews.entries, List.map_append, hn id _ hj, hnews.numbered, hnews.seq,
      ← List.range'_append_1, Nat.add_comm 1]
  | submitted => rfl
  | receipt => rfl

/-- A row drawn by now is the old row under the same id, later: its request stands, its log
is continued, and nothing follows the end.  Only a receipt has forgotten its request. -/
structure Later (id : String) (row : Option Job) (doc : Document) : Prop where
  drawn : id ∈ doc.issued
  row : ∀ j', doc.registry.jobs.get? id = some j' → ∃ j, row = some j ∧
    (j'.emptyIdentity = true ∨ j'.header = j.header ∧ ∃ news, Continues j.log j'.log news ∧
      (j.status.terminal = true → j'.status = j.status ∧ news = []))

theorem later_step {row : Option Job} (hs : Sound doc) (hl : Later id row doc)
    (hadm : op.admissible env doc = true) (ho : Outcome env doc.registry op val doc'.registry)
    (hissued : doc'.issued = doc.issued ++ op.draws env) : Later id row doc' where
  drawn := by
    rw [hissued]
    exact List.mem_append_left _ hl.drawn
  row j' hj' := by
    cases outcome_rows hs.keyed hs.keys ho hj' with
    | @stepped k _ hk hstep =>
      obtain ⟨j, rfl, hold⟩ := hl.row k hk
      refine ⟨j, rfl, ?_⟩
      rcases hold with hempty | ⟨hhead, news, hnews, hended⟩
      · exact .inl ((Job.emptyIdentity_of_header hstep.header).trans hempty)
      · obtain ⟨more, hmore, hquiet⟩ := hstep.continues
        refine .inr ⟨hstep.header.trans hhead, _, hnews.trans hmore, fun hterm => ?_⟩
        obtain ⟨hstatus, rfl⟩ := hended hterm
        have hterm' : k.status.terminal = true := hstatus ▸ hterm
        exact ⟨(hstep.sameOutcome hterm').status.trans hstatus, hquiet hterm'⟩
    | submitted hop hid =>
      subst hop hid
      exact absurd hl.drawn (draws_fresh hadm (by simp [Op.draws])).1
    | @receipt _ _ _ _ _ k _ hholds =>
      obtain ⟨j, rfl, -⟩ := hl.row k hholds.get
      exact ⟨j, rfl, .inl rfl⟩

/-- **The log of a job is append only.**  In every run of any number of processes, a row
whose id was drawn before is the row that stood there: an id is never used again, the log
is numbered without a gap and continues what it was, and the log of an ended job is closed.
The one exception is the receipt of a factory reset, which says no longer what was
asked. -/
theorem log_append_only (h : registryCell.Reaches Machine.anyStep s)
    (hrun : registryCell.run s es = some t) (hid : id ∈ s.doc.issued)
    (hj' : t.doc.registry.jobs.get? id = some j') :
    j'.log.2.map Prod.fst = List.range' 1 j'.transitionSeq ∧
      ∃ j, s.doc.registry.jobs.get? id = some j ∧
        (j'.emptyIdentity = true ∨ j'.header = j.header ∧
          ∃ news, Continues j.log j'.log news ∧
            (j.status.terminal = true → j'.status = j.status ∧ news = [])) := by
  have hlater : Later id (s.doc.registry.jobs.get? id) t.doc := by
    refine document_run (fun _ _ _ _ _ hs hl hadm ho hi => later_step hs hl hadm ho hi) h
      ⟨hid, fun j hj => ⟨j, hj, .inr ⟨rfl, [], Continues.of_eq rfl, fun _ => ⟨rfl, rfl⟩⟩⟩⟩ hrun
  have hnumbered : Numbered t.doc.registry := by
    refine document_invariant (D := fun doc => Numbered doc.registry) ?_
      (fun _ _ _ _ _ hs hn _ ho _ => numbered_step hs hn ho) (h.run hrun)
    intro id j hj
    cases hj
  exact ⟨hnumbered id j' hj', hlater.row j' hj'⟩

/-- A worker claims the job, which continues its log. -/
theorem log_append_only_of_one_claim :
    ∃ (j j' : Job) (news : List (Nat × String × String)), Continues j.log j'.log news ∧
      j'.status = .running ∧ j'.transitionSeq = 2 := by
  have hrun : (registryCell.run quietCell oneReset).any (fun s =>
      decide ("job-1" ∈ s.doc.issued) &&
        (registryCell.run s (CasCell.solo (I := registryInterface) 1 (.claimNext "w1" 30000)
          (sampleEnv 0 "t1"))).any fun t => (t.doc.registry.jobs.get? "job-1").any fun j' =>
            !j'.emptyIdentity && (decide (j'.status = .running) && decide (j'.transitionSeq = 2)))
      = true := by decide
  simp only [Option.any_eq_true, Bool.and_eq_true, Bool.not_eq_true', decide_eq_true_eq] at hrun
  obtain ⟨s, hrun, hid, t, hrun', j', hj', hkept, hstatus, hseq⟩ := hrun
  have h : registryCell.Reaches Machine.anyStep s :=
    ⟨quietCell, _, ⟨rfl, rfl, fun _ => rfl⟩, registryCell.throughout_anyStep _ _, hrun⟩
  obtain ⟨-, j, -, hempty | ⟨-, news, hnews, -⟩⟩ := log_append_only h hrun' hid hj'
  · rw [hkept] at hempty
    cases hempty
  · exact ⟨j, j', news, hnews, hstatus, hseq⟩

/-- **The store is linearizable.**  Whatever the processes do, however their calls race, fail, lose
their responses or stop, the document is what the committed operations make of the empty one, run
one after the other; a call that returns is the last of them at that moment and returns what it
computed there, and a call that refuses does so by the document that it read and changes nothing. -/
theorem registry_linearizable {s0 : CellState} (hstart : registryCell.start s0)
    (hrun : registryCell.run s0 es = some s) :
    registryMachine.run emptyDocument (CasCell.ops s0 es) = some s.doc ∧
      s.rev = (CasCell.ops s0 es).length ∧
      ∀ e t op, registryCell.step s e = some t → (s.phase e.client).operation = some op →
        (∀ val, t.phase e.client = .returned val → ∃ env, op.admissible env s.doc = true ∧
          op.change env s.doc = .ok (val, t.doc) ∧
          CasCell.ops s0 (es ++ [e]) = CasCell.ops s0 es ++ [(op, env)]) ∧
        ∀ err, t.phase e.client = .raised (.refused err) → ∃ env, op.admissible env s.doc = true ∧
          op.change env s.doc = .error err ∧ t.doc = s.doc := by
  have hreach : registryCell.Reaches Machine.anyStep s :=
    ⟨s0, es, hstart, registryCell.throughout_anyStep _ _, hrun⟩
  obtain ⟨hdoc, hrev⟩ := CasCell.atomic_run (CasCell.snapshot_start hstart) hrun
  rw [hstart.1] at hdoc
  rw [hstart.2.1, Nat.zero_add] at hrev
  refine ⟨hdoc, hrev, fun e t op hstep hop => ⟨fun val hreturned => ?_, fun err hraised => ?_⟩⟩
  · obtain ⟨env, hcommits⟩ := CasCell.commits_of_returned hstep hop hreturned
    obtain ⟨hadm, hchange⟩ := hcommits.change_eq (CasCell.snapshot_of_reaches hreach)
    refine ⟨env, hadm, hchange, ?_⟩
    have hstep' : CasCell.step s e = some t := hstep
    rw [CasCell.ops_append hrun]
    simp [CasCell.ops, hstep', CasCell.committed_of_commits hcommits]
  · exact CasCell.refused_of_raised hstep hop hraised

theorem registry_linearizable_of_one_reset :
    ∃ s : CellState, registryCell.run quietCell oneReset = some s ∧
      (CasCell.ops quietCell oneReset).length = 1 ∧
      registryMachine.run emptyDocument (CasCell.ops quietCell oneReset) = some s.doc := by
  have hrun : (registryCell.run quietCell oneReset).any (fun s => s.rev == 1) = true := by decide
  obtain ⟨s, hrun, hrev⟩ := Option.any_eq_true _ _ |>.mp hrun
  obtain ⟨hdoc, hlength, -⟩ := registry_linearizable ⟨rfl, rfl, fun _ => rfl⟩ hrun
  exact ⟨s, hrun, hlength.symm.trans (eq_of_beq hrev), hdoc⟩

end AgenticKibana.Jobs
