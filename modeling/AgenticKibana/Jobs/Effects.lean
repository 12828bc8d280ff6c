import AgenticKibana.Jobs.Journal

/-!
# Effects

An effect is started by a runner that has begun its item, and an item is begun once: what has been
begun is never pending again.  The item loop skips what is recorded as succeeded or failed; the
handlers with one item skip it only if it is recorded as failed, so a runner that takes over after
the success was recorded, and before the job was finished, starts the effect again.
-/

namespace AgenticKibana.Jobs

open AgenticKibana.Library List

/-- What an operation does to the rows, as far as the runners see it; `own` is the lease
under which it writes the journal. -/
structure DocMove (own : Option (String × String)) (doc doc' : Document) : Prop where
  sound : Sound doc'
  fit : ∀ id row, doc'.registry.jobs.get? id = some row → Fit row
  issued : ∀ x ∈ doc.issued, x ∈ doc'.issued
  row : ∀ id row', id ∈ doc.issued → doc'.registry.jobs.get? id = some row' →
    row'.status.terminal = false → ∃ row, doc.registry.jobs.get? id = some row ∧
      row.status.terminal = false ∧ row'.kind = row.kind ∧
      (row.kind.handler ≠ .other → ∀ ref, Begun row.itemStates ref → Begun row'.itemStates ref)
  held : ∀ id token row', token ∈ doc.issued → Holds doc'.registry id token row' →
    own = some (id, token) ∨ ∃ row, Holds doc.registry id token row ∧
      row'.kind = row.kind ∧ row'.itemStates = row.itemStates

variable {doc doc' : Document} {env : Env} {op : Op} {val : Val} {token ref owner : String}
  {c : Nat} {s t : Runners} {p p' : Point} {rest : List (String × ItemState)} {current : Job}
  {k : Resume} {r : Except JobError (Val × Document)}

theorem DocMove.refl (hs : Sound doc)
    (hfit : ∀ id row, doc.registry.jobs.get? id = some row → Fit row) : DocMove none doc doc where
  sound := hs
  fit := hfit
  issued _ h := h
  row _ row _ hget hactive := ⟨row, hget, hactive, rfl, fun _ _ h => h⟩
  held _ _ row _ hholds := .inr ⟨row, hholds, rfl, rfl⟩

def ReleasesEarly (op : Op) (doc : Document) : Prop :=
  op.isRelease = true → ∀ id token row, op.lease = some (id, token) →
    Holds doc.registry id token row → row.kind.handler ≠ .other → NoProcessing row.itemStates

theorem docMove_of_change (hs : Sound doc)
    (hfit : ∀ id row, doc.registry.jobs.get? id = some row → Fit row)
    (hadm : op.admissible env doc = true) (hch : op.change env doc = .ok (val, doc'))
    (hrel : ReleasesEarly op doc) : DocMove op.writer doc doc' := by
  obtain ⟨ho, hissued, hs'⟩ := hs.change hadm hch
  -- an active row comes from an active row
  have hactive : ∀ {id : String} {j j' : Job}, RowStep env doc.registry op id j j' →
      j'.status.terminal = false → j.status.terminal = false := by
    intro id j j' hstep hterm'
    cases hterm : j.status.terminal with
    | false => rfl
    | true =>
      rw [(hstep.sameOutcome hterm).status, hterm] at hterm'
      cases hterm'
  have hfit' : ∀ {id : String} {j j' : Job}, doc.registry.jobs.get? id = some j →
      RowStep env doc.registry op id j j' → Fit j' := by
    intro id j j' hj hstep
    apply hstep.journal.fit (Job.kind_of_header hstep.header) (hfit id j hj) (hactive hstep)
    · intro hterm'
      rcases hstep.params with hsame | ⟨-, hended⟩
      · exact hsame
      · rw [hended] at hterm'
        cases hterm'
    · intro token hop hholds hkind
      subst hop
      exact hrel rfl id token j rfl hholds hkind
  constructor
  · exact hs'
  · intro id row' hget
    cases outcome_rows hs.keyed hs.keys ho hget with
    | stepped hj hstep => exact hfit' hj hstep
    | submitted hop _ =>
      subst hop
      exact fit_of_submission (accepted_of_admissible hadm)
    | receipt _ _ hterm =>
      intro _ hactive
      exact absurd (hterm.symm.trans hactive) (by decide)
  · intro x hx
    rw [hissued]
    exact mem_append_left _ hx
  · intro id row' hid hget hterm'
    cases outcome_rows hs.keyed hs.keys ho hget with
    | stepped hj hstep =>
      refine ⟨_, hj, hactive hstep hterm', Job.kind_of_header hstep.header, ?_⟩
      intro hkind ref hbegun
      exact hstep.journal.begunItem hkind (hfit id _ hj) hterm' hbegun
    | submitted hop hsame =>
      subst hop hsame
      exact absurd hid (draws_fresh hadm (by simp [Op.draws])).1
    | receipt _ _ hterm => exact absurd (hterm.symm.trans hterm') (by decide)
  · intro id token row' htoken hholds
    cases outcome_rows hs.keyed hs.keys ho hholds.get with
    | stepped hj hstep =>
      have hdrawn : token ∉ op.draws env := fun hx => (draws_fresh hadm hx).1 htoken
      obtain ⟨hrunning, htok, hown | hstates⟩ :=
        hstep.journal.held hdrawn hholds.running hholds.token
      · exact .inl hown
      · exact .inr ⟨_, ⟨hj, htok, hrunning⟩, Job.kind_of_header hstep.header, hstates⟩
    | submitted | receipt => cases hholds.token

theorem held_change {jobId : String} {next : Job → Job} (hs : Sound doc)
    (hrun : op.run env doc.registry =
      tag .job (ownedUpdate doc.registry jobId token fun job => .ok (next job, next job)))
    (hch : op.change env doc = .ok (val, doc')) :
    ∃ row, Holds doc.registry jobId token row ∧ val = .job (next row) ∧
      doc'.registry.jobs.get? jobId = some (next row) := by
  unfold Op.change at hch
  rw [hrun] at hch
  split at hch
  · next val0 d' hok =>
      obtain ⟨rfl, rfl⟩ := Prod.mk.inj (Except.ok.inj hch)
      obtain ⟨job, hjob, rfl⟩ := tag_eq_ok.mp hok
      obtain ⟨row, written, hholds, hnext, rfl⟩ := ownedUpdate_eq_ok hs.clean hjob
      obtain ⟨rfl, rfl⟩ := Prod.mk.inj (Except.ok.inj hnext)
      refine ⟨row, hholds, rfl, ?_⟩
      rw [write_get?, if_pos rfl]
  · cases hch

/-! ### What a runner knows -/

def Worker.lease : Worker → Option (Job × String)
  | .idle => none
  | .claimed job token | .executing job token _ => some (job, token)

def Point.armed (job : Job) : Point → Option (String × String)
  | .ready ref _ => some (job.jobId, ref)
  | .fencing seen | .draining seen | .primed seen =>
    if seen = some .succeeded then none else some (job.jobId, job.kind.itemRef)
  | _ => none

def Worker.armed : Worker → Option (String × String)
  | .executing job _ p => p.armed job
  | _ => none

structure Handed (job : Job) : Prop where
  settled : job.kind.handler ≠ .other → NoProcessing job.itemStates
  item : ∀ ref, job.kind.handler = .single ref → job.itemStates.get? ref ≠ none
  unique : job.kind.handler = .replay → (fixtureIds job.params).Nodup
  fixtures : job.kind.handler = .replay → ∀ ref ∈ fixtureIds job.params,
    job.itemStates.get? ref ≠ none

def Handler.loops : Handler → Bool
  | .items | .replay => true
  | _ => false

structure Remaining (rest : List (String × ItemState)) : Prop where
  nodup : (rest.map Prod.fst).Nodup
  settled : ∀ e ∈ rest, e.2 ≠ .processing

def Op.ends : Op → Bool
  | .finish _ _ _ _ _ | .factoryCompact _ _ _ _ _ _ => true
  | _ => false

structure Ends (job : Job) (token : String) (op : Op) : Prop where
  lease : op.lease = some (job.jobId, token)
  ends : op.ends = true

def Resume.Formed (job : Job) (token : String) : Resume → Prop
  | .handler | .summary | .refused _ => True
  | .item ref rest => job.kind.handler.loops = true ∧ Remaining ((ref, .pending) :: rest)
  | .fixtures => job.kind.handler = .replay
  | .prepare => job.kind.handler = .single job.kind.itemRef
  | .wrapUp op => Ends job token op

def Point.Formed (job : Job) (token : String) : Point → Prop
  | .gate k | .renewing k => k.Formed job token
  | .building => job.kind.handler = .replay
  | .loop rest => job.kind.handler.loops = true ∧ Remaining rest
  | .progressing ref rest | .begin ref rest | .ready ref rest | .effect ref rest
  | .complete ref rest _ => job.kind.handler.loops = true ∧ Remaining ((ref, .pending) :: rest)
  | .prepare seen | .fencing seen | .draining seen | .primed seen =>
    job.kind.handler = .single job.kind.itemRef ∧
      (seen = some .pending ∨ seen = some .succeeded)
  | .running | .recording _ => job.kind.handler = .single job.kind.itemRef
  | .ending op => Ends job token op
  | .reopening | .unfencing _ | .failing _ | .handling => True

def Worker.Formed : Worker → Prop
  | .idle => True
  | .claimed job _ => Handed job
  | .executing job token p => Handed job ∧ p.Formed job token

def Follows (states : Dict String ItemState) (rest : List (String × ItemState)) : Prop :=
  ∀ e ∈ rest, states.get? e.1 = some e.2

def Resume.Agrees (job : Job) (states : Dict String ItemState) : Resume → Prop
  | .handler => job.kind.handler ≠ .other → states = job.itemStates
  | .item ref rest => Follows states ((ref, .pending) :: rest)
  | .prepare | .fixtures => states = job.itemStates
  | .summary | .refused _ | .wrapUp _ => True

def Point.Agrees (job : Job) (states : Dict String ItemState) : Point → Prop
  | .gate k | .renewing k => k.Agrees job states
  | .loop rest | .ready _ rest | .effect _ rest | .complete _ rest _ => Follows states rest
  | .progressing ref rest | .begin ref rest => Follows states ((ref, .pending) :: rest)
  | .building => Follows states job.fixtures
  | .prepare seen => states.get? job.kind.itemRef = seen
  | _ => True

def Worker.Agrees (states : Dict String ItemState) : Worker → Prop
  | .idle => True
  | .claimed job _ => job.kind.handler ≠ .other → states = job.itemStates
  | .executing job _ p => p.Agrees job states

def Placed (doc : Document) (w : Worker) : Prop :=
  ∀ job token row, w.lease = some (job, token) → Holds doc.registry job.jobId token row →
    w.Agrees row.itemStates

/-! ### The invariant -/

def Touched (s : Runners) (x : String × String) : Prop :=
  x ∈ s.effects ∨ ∃ c, (s.worker c).armed = some x

structure Committed (doc : Document) (x : String × String) : Prop where
  issued : x.1 ∈ doc.issued
  begun : ∀ row, doc.registry.jobs.get? x.1 = some row → row.status.terminal = false →
    row.kind.handler ≠ .other ∧ Begun row.itemStates x.2

structure Known (doc : Document) (job : Job) (token : String) : Prop where
  drawn : token ∈ doc.issued
  issued : job.jobId ∈ doc.issued
  kind : ∀ row, doc.registry.jobs.get? job.jobId = some row → row.status.terminal = false →
    row.kind = job.kind

structure RunnersOk (s : Runners) : Prop where
  sound : Sound s.doc
  fit : ∀ id row, s.doc.registry.jobs.get? id = some row → Fit row
  known : ∀ c job token, (s.worker c).lease = some (job, token) → Known s.doc job token
  distinct : ∀ c c' job job' token, (s.worker c).lease = some (job, token) →
    (s.worker c').lease = some (job', token) → c = c'
  formed : ∀ c, (s.worker c).Formed
  placed : ∀ c, Placed s.doc (s.worker c)
  touched : ∀ x, Touched s x → Committed s.doc x
  once : s.effects.Nodup
  unstarted : ∀ c x, (s.worker c).armed = some x → x ∉ s.effects
  one : ∀ c c' x, (s.worker c).armed = some x → (s.worker c').armed = some x → c = c'

variable {own : Option (String × String)} {job : Job}

theorem Known.move (h : Known doc job token) (m : DocMove own doc doc') :
    Known doc' job token where
  drawn := m.issued _ h.drawn
  issued := m.issued _ h.issued
  kind row' hget hactive := by
    obtain ⟨row, hrow, hactive0, hkind, -⟩ := m.row _ row' h.issued hget hactive
    exact hkind.trans (h.kind row hrow hactive0)

variable {x : String × String}

theorem Committed.move (h : Committed doc x) (m : DocMove own doc doc') : Committed doc' x where
  issued := m.issued _ h.issued
  begun row' hget hactive := by
    obtain ⟨row, hrow, hactive0, hkind, hbegun⟩ := m.row _ row' h.issued hget hactive
    obtain ⟨hfollowed, hitem⟩ := h.begun row hrow hactive0
    exact ⟨hkind ▸ hfollowed, hbegun hfollowed _ hitem⟩

theorem Placed.move {w : Worker} (h : Placed doc w) (m : DocMove own doc doc')
    (hknown : ∀ job token, w.lease = some (job, token) → token ∈ doc.issued)
    (hown : ∀ job token, w.lease = some (job, token) → own ≠ some (job.jobId, token)) :
    Placed doc' w := by
  intro job token row' hlease hholds
  rcases m.held _ token row' (hknown job token hlease) hholds with hmine | ⟨row, hrow, -, hstates⟩
  · exact absurd hmine (hown job token hlease)
  · rw [hstates]
    exact h job token row hlease hrow

/-- A runner's move: what it is handed is new or was its own, and it becomes ready to
start an effect only for an item nobody touched. -/
structure WorkerMove (s : Runners) (doc' : Document) (c : Nat) (w' : Worker) : Prop where
  lease : ∀ job token, w'.lease = some (job, token) → (s.worker c).lease = some (job, token) ∨
    token ∉ s.doc.issued ∧ Known doc' job token
  formed : w'.Formed
  placed : Placed doc' w'
  armed : ∀ x, w'.armed = some x → (s.worker c).armed = some x ∨
    ¬ Touched s x ∧ Committed doc' x

variable {w' : Worker}

/-- **A move keeps the invariant.** -/
theorem RunnersOk.move (h : RunnersOk s) (m : DocMove own s.doc doc')
    (hown : ∀ id token, own = some (id, token) → ∃ job, (s.worker c).lease = some (job, token))
    (hw : WorkerMove s doc' c w') : RunnersOk ({ s with doc := doc' }.setWorker c w') := by
  have hself : ∀ w, Function.update s.worker c w c = w := fun w => Function.update_self c w s.worker
  have hother : ∀ c' w, c' ≠ c → Function.update s.worker c w c' = s.worker c' :=
    fun c' w hne => Function.update_of_ne hne w s.worker
  constructor
  · exact m.sound
  · exact m.fit
  · intro c' job token hlease
    change (Function.update s.worker c w' c').lease = _ at hlease
    by_cases hc : c' = c
    · subst hc
      rw [hself] at hlease
      rcases hw.lease job token hlease with hold | ⟨-, hnew⟩
      · exact (h.known c' job token hold).move m
      · exact hnew
    · rw [hother c' w' hc] at hlease
      exact (h.known c' job token hlease).move m
  · -- a token is held by the runner that had it, or is new
    have hcross : ∀ c' job job' token, c' ≠ c → w'.lease = some (job, token) →
        (s.worker c').lease = some (job', token) → False := by
      intro c' job job' token hne hlease hlease'
      rcases hw.lease job token hlease with hold | ⟨hfresh, -⟩
      · exact hne (h.distinct c' c job' job token hlease' hold)
      · exact hfresh (h.known c' job' token hlease').drawn
    intro c1 c2 job job' token h1 h2
    change (Function.update s.worker c w' c1).lease = _ at h1
    change (Function.update s.worker c w' c2).lease = _ at h2
    by_cases hc1 : c1 = c <;> by_cases hc2 : c2 = c
    · rw [hc1, hc2]
    · rw [hc1, hself] at h1
      rw [hother c2 w' hc2] at h2
      exact (hcross c2 job job' token hc2 h1 h2).elim
    · rw [hother c1 w' hc1] at h1
      rw [hc2, hself] at h2
      exact (hcross c1 job' job token hc1 h2 h1).elim
    · rw [hother c1 w' hc1] at h1
      rw [hother c2 w' hc2] at h2
      exact h.distinct c1 c2 job job' token h1 h2
  · intro c'
    change (Function.update s.worker c w' c').Formed
    by_cases hc : c' = c
    · rw [hc, hself]
      exact hw.formed
    · rw [hother c' w' hc]
      exact h.formed c'
  · intro c'
    change Placed doc' (Function.update s.worker c w' c')
    by_cases hc : c' = c
    · rw [hc, hself]
      exact hw.placed
    · rw [hother c' w' hc]
      apply (h.placed c').move m
      · exact fun job token hlease => (h.known c' job token hlease).drawn
      · intro job token hlease hmine
        obtain ⟨job', hlease'⟩ := hown _ token hmine
        exact hc (h.distinct c' c job job' token hlease hlease')
  · intro x hx
    rcases hx with heffect | ⟨c', harmed⟩
    · exact (h.touched x (.inl heffect)).move m
    · change (Function.update s.worker c w' c').armed = _ at harmed
      by_cases hc : c' = c
      · rw [hc, hself] at harmed
        rcases hw.armed x harmed with hold | ⟨-, hnew⟩
        · exact (h.touched x (.inr ⟨c, hold⟩)).move m
        · exact hnew
      · rw [hother c' w' hc] at harmed
        exact (h.touched x (.inr ⟨c', harmed⟩)).move m
  · exact h.once
  · intro c' x harmed
    change (Function.update s.worker c w' c').armed = _ at harmed
    by_cases hc : c' = c
    · rw [hc, hself] at harmed
      rcases hw.armed x harmed with hold | ⟨hnot, -⟩
      · exact h.unstarted c x hold
      · exact fun heffect => hnot (.inl heffect)
    · rw [hother c' w' hc] at harmed
      exact h.unstarted c' x harmed
  · have hcross : ∀ c' x, c' ≠ c → w'.armed = some x → (s.worker c').armed = some x → False := by
      intro c' x hne harmed harmed'
      rcases hw.armed x harmed with hold | ⟨hnot, -⟩
      · exact hne (h.one c' c x harmed' hold)
      · exact hnot (.inr ⟨c', harmed'⟩)
    intro c1 c2 x h1 h2
    change (Function.update s.worker c w' c1).armed = _ at h1
    change (Function.update s.worker c w' c2).armed = _ at h2
    by_cases hc1 : c1 = c <;> by_cases hc2 : c2 = c
    · rw [hc1, hc2]
    · rw [hc1, hself] at h1
      rw [hother c2 w' hc2] at h2
      exact (hcross c2 x hc2 h1 h2).elim
    · rw [hother c1 w' hc1] at h1
      rw [hc2, hself] at h2
      exact (hcross c1 x hc1 h2 h1).elim
    · rw [hother c1 w' hc1] at h1
      rw [hother c2 w' hc2] at h2
      exact h.one c1 c2 x h1 h2

theorem RunnersOk.record (h : RunnersOk s) (hnot : ¬ Touched s x) (hx : Committed s.doc x) :
    RunnersOk { s with effects := s.effects ++ [x] } where
  sound := h.sound
  fit := h.fit
  known := h.known
  distinct := h.distinct
  formed := h.formed
  placed := h.placed
  touched y hy := by
    rcases hy with heffect | harmed
    · rcases mem_append.mp heffect with hold | hnew
      · exact h.touched y (.inl hold)
      · exact mem_singleton.mp hnew ▸ hx
    · exact h.touched y (.inr harmed)
  once := by
    refine nodup_append.mpr ⟨h.once, nodup_singleton x, ?_⟩
    intro y hy z hz heq
    rw [mem_singleton.mp hz] at heq
    exact hnot (.inl (heq ▸ hy))
  unstarted c y harmed heffect := by
    rcases mem_append.mp heffect with hold | hnew
    · exact h.unstarted c y harmed hold
    · exact hnot (.inr ⟨c, mem_singleton.mp hnew ▸ harmed⟩)
  one := h.one

theorem RunnersOk.refl (h : RunnersOk s) : DocMove none s.doc s.doc :=
  DocMove.refl h.sound h.fit

theorem WorkerMove.idle (s : Runners) (doc' : Document) (c : Nat) : WorkerMove s doc' c .idle where
  lease _ _ h := by cases h
  formed := trivial
  placed _ _ _ h := by cases h
  armed _ h := by cases h

theorem RunnersOk.point (h : RunnersOk s) (hw : s.worker c = .executing job token p)
    (hformed : p'.Formed job token)
    (hplaced : ∀ row, Holds doc'.registry job.jobId token row → p'.Agrees job row.itemStates)
    (harmed : ∀ x, p'.armed job = some x → p.armed job = some x ∨
      ¬ Touched s x ∧ Committed doc' x) : WorkerMove s doc' c (.executing job token p') := by
  have hf := h.formed c
  rw [hw] at hf
  constructor
  · intro job' token' hlease
    rw [hw]
    exact .inl hlease
  · exact ⟨hf.1, hformed⟩
  · intro job' token' row hlease hholds
    obtain ⟨rfl, rfl⟩ := Prod.mk.inj (Option.some.inj hlease)
    exact hplaced row hholds
  · intro x hx
    rw [hw]
    exact harmed x hx

theorem RunnersOk.between (h : RunnersOk s) (hw : s.worker c = .executing job token p)
    (hformed : p.Formed job token → p'.Formed job token)
    (hagrees : ∀ states, p.Agrees job states → p'.Agrees job states)
    (harmed : ∀ x, p'.armed job = some x → p.armed job = some x) :
    RunnersOk (s.setWorker c (.executing job token p')) := by
  have hf := h.formed c
  have hp := h.placed c
  rw [hw] at hf hp
  apply h.move h.refl (fun _ _ hnone => by cases hnone)
  apply h.point hw
  · exact hformed hf.2
  · exact fun row hholds => hagrees _ (hp job token row rfl hholds)
  · exact fun x hx => .inl (harmed x hx)

theorem RunnersOk.stop (h : RunnersOk s) (c : Nat) :
    RunnersOk (s.setWorker c .idle) :=
  h.move h.refl (fun _ _ hnone => by cases hnone) (WorkerMove.idle s s.doc c)

theorem RunnersOk.write (h : RunnersOk s)
    (m : DocMove none s.doc doc') : RunnersOk { s with doc := doc' } := by
  have hmove : WorkerMove s doc' 0 (s.worker 0) := by
    constructor
    · exact fun job token hlease => .inl hlease
    · exact h.formed 0
    · apply (h.placed 0).move m
      · exact fun job token hlease => (h.known 0 job token hlease).drawn
      · exact fun job token _ hnone => by cases hnone
    · exact fun x hx => .inl hx
  have hset : ({ s with doc := doc' } : Runners).setWorker 0 (s.worker 0) =
      { s with doc := doc' } := by
    simp only [Runners.setWorker, Function.update_eq_self]
  rw [← hset]
  exact h.move m (fun _ _ hnone => by cases hnone) hmove

/-! ### Points -/

theorem summary_ends (job current : Job) (token : String) :
    Ends job token (summaryOp job token current) := ⟨rfl, rfl⟩

theorem reset_ends (job : Job) (token : String) (r : Report) :
    Ends job token (resetOp job token r) := by
  unfold resetOp
  split
  · split <;> exact ⟨rfl, rfl⟩
  · exact ⟨rfl, rfl⟩

variable {e : String × ItemState}

theorem remaining_tail (h : Remaining (e :: rest)) : Remaining rest where
  nodup := (nodup_cons.mp h.nodup).2
  settled e' he' := h.settled e' (mem_cons_of_mem e he')

variable {states : Dict String ItemState}

theorem follows_tail (h : Follows states (e :: rest)) : Follows states rest :=
  fun e' he' => h e' (mem_cons_of_mem e he')

theorem follows_of_written {states' : Dict String ItemState} {st : ItemState}
    (hrest : Remaining ((ref, st) :: rest)) (h : Follows states rest)
    (hsame : ∀ ref', ref' ≠ ref → states'.get? ref' = states.get? ref') :
    Follows states' rest := by
  intro e he
  rw [hsame, h e he]
  rintro rfl
  exact (nodup_cons.mp hrest.nodup).1 (List.mem_map.mpr ⟨e, he, rfl⟩)

theorem other_of_loops {handler : Handler} (h : handler.loops = true) : handler ≠ .other := by
  rintro rfl
  cases h

theorem handler_single {kind : JobKind} (h : kind.handler = .single ref) :
    kind.handler = .single kind.itemRef := by
  rw [h, JobKind.itemRef, h]

/-- **A passed checkpoint** puts a runner at a point it knows enough for. -/
theorem next_formed (hj : Handed job) (hk : k.Formed job token)
    (ha : k.Agrees job current.itemStates) : (k.next job token current).Formed job token := by
  cases k with
  | handler =>
    simp only [Resume.next]
    cases hh : job.kind.handler with
    | items =>
      refine ⟨by rw [hh]; rfl, job.itemStates.nodup, fun e he hproc => ?_⟩
      apply hj.settled (by simp [hh]) e.1
      rw [← hproc]
      exact Dict.get?_eq_some_iff.mpr he
    | replay => exact hh
    | single ref => exact handler_single hh
    | other => trivial
  | item ref rest =>
    simp only [Resume.next]
    split <;> exact hk
  | summary => exact summary_ends job current token
  | fixtures =>
    simp only [Resume.next]
    split
    · trivial
    · exact hk
  | refused reason => exact ⟨rfl, rfl⟩
  | prepare =>
    simp only [Resume.next]
    split
    · exact ⟨rfl, rfl⟩
    · next hfailed =>
        change current.itemStates = job.itemStates at ha
        refine ⟨hk, ?_⟩
        rw [ha] at hfailed ⊢
        have hne := hj.item _ hk
        have hsettled : job.itemStates.get? job.kind.itemRef ≠ some .processing :=
          hj.settled (by rw [hk]; simp) job.kind.itemRef
        cases hget : job.itemStates.get? job.kind.itemRef with
        | none => exact absurd hget hne
        | some st =>
          rw [hget] at hfailed hsettled
          cases st with
          | pending => exact .inl rfl
          | succeeded => exact .inr rfl
          | processing => exact absurd rfl hsettled
          | failed => exact absurd rfl hfailed
  | wrapUp op => exact hk

theorem fixtures_pending (hj : Handed job) (hreplay : job.kind.handler = .replay)
    (ha : current.itemStates = job.itemStates) (hfresh : ¬ current.resumed = true) :
    Follows current.itemStates job.fixtures := by
  intro e he
  obtain ⟨ref, href, rfl⟩ := List.mem_map.mp he
  have hsome := hj.fixtures hreplay ref href
  have hsettled := hj.settled (by rw [hreplay]; simp) ref
  rw [← ha] at hsome hsettled
  cases hget : current.itemStates.get? ref with
  | none => exact absurd hget hsome
  | some st =>
    have hended : ¬ (st = .succeeded ∨ st = .failed) := by
      intro hst
      apply hfresh
      refine List.any_eq_true.mpr ⟨st, Dict.mem_values_iff.mpr ⟨ref, hget⟩, ?_⟩
      simpa using hst
    rw [hget] at hsettled
    cases st with
    | pending => rfl
    | processing => exact absurd rfl hsettled
    | succeeded => exact absurd (.inl rfl) hended
    | failed => exact absurd (.inr rfl) hended

theorem next_agrees (hj : Handed job) (hk : k.Formed job token)
    (ha : k.Agrees job current.itemStates) :
    (k.next job token current).Agrees job current.itemStates := by
  cases k with
  | handler =>
    simp only [Resume.next]
    cases hh : job.kind.handler with
    | items =>
      intro e he
      change job.kind.handler ≠ .other → _ at ha
      rw [ha (by simp [hh])]
      exact Dict.get?_eq_some_iff.mpr he
    | replay | single ref => exact ha (by simp [hh])
    | other => trivial
  | item ref rest =>
    simp only [Resume.next]
    split <;> exact ha
  | summary => trivial
  | fixtures =>
    simp only [Resume.next]
    split
    · trivial
    · next hfresh => exact fixtures_pending hj hk ha hfresh
  | refused reason => trivial
  | prepare =>
    simp only [Resume.next]
    split
    · trivial
    · rfl
  | wrapUp op => trivial

theorem next_armed (job current : Job) (token : String) (k : Resume) :
    (k.next job token current).armed job = none := by
  cases k with
  | handler | item ref rest | fixtures | prepare =>
    simp only [Resume.next]
    split <;> rfl
  | _ => rfl

theorem RunnersOk.raised (h : RunnersOk s) (hw : s.worker c = .executing job token p)
    (reason : String) (hfollows : ∀ ref rest, p = .effect ref rest ∨ p = .complete ref rest none →
      ∀ row, Holds doc'.registry job.jobId token row → Follows row.itemStates rest) :
    WorkerMove s doc' c (p.raised job token reason) := by
  have hf := h.formed c
  rw [hw] at hf
  have harmed : ∀ p' : Point, p'.armed job = none → ∀ x, p'.armed job = some x →
      p.armed job = some x ∨ ¬ Touched s x ∧ Committed doc' x := by
    intro p' hnone x hx
    rw [hnone] at hx
    cases hx
  cases p with
  | effect ref rest =>
    exact h.point hw hf.2 (hfollows ref rest (.inl rfl)) (harmed (.complete ref rest _) rfl)
  | complete ref rest error =>
    cases error with
    | none =>
      simp only [Point.raised]
      split
      · exact h.point hw trivial (fun _ _ => trivial) (harmed (.failing reason) rfl)
      · exact h.point hw hf.2 (hfollows ref rest (.inr rfl)) (harmed (.complete ref rest _) rfl)
    | some e => exact h.point hw trivial (fun _ _ => trivial) (harmed (.failing reason) rfl)
  | draining seen => exact h.point hw trivial (fun _ _ => trivial) (harmed (.unfencing reason) rfl)
  | ending op | reopening | failing r => exact WorkerMove.idle s doc' c
  | _ => exact h.point hw trivial (fun _ _ => trivial) (harmed (.failing reason) rfl)

/-! ### Calls -/

/-- The calls of an executing runner write the journal under its lease at most, and none
of them releases the claim. -/
theorem call_writer (hf : p.Formed job token) (hop : p.call job token = some op) :
    op.isRelease = false ∧ (op.writer = none ∨ op.writer = some (job.jobId, token)) := by
  cases p with
  | ending op' =>
    obtain rfl := Option.some.inj hop
    have hends := hf.ends
    cases op' with
    | finish | factoryCompact => exact ⟨rfl, .inl rfl⟩
    | _ => cases hends
  | renewing | progressing | fencing | reopening | unfencing =>
    obtain rfl := Option.some.inj hop
    exact ⟨rfl, .inl rfl⟩
  | begin | complete | prepare | recording =>
    obtain rfl := Option.some.inj hop
    exact ⟨rfl, .inr rfl⟩
  | _ => cases hop

/-- **Beginning a pending item**: nobody touched it, and from now on it is committed. -/
theorem begin_commits (h : RunnersOk s) {row : Job} (hknown : Known s.doc job token)
    (hfollowed : job.kind.handler ≠ .other) (hholds : Holds s.doc.registry job.jobId token row)
    (hpending : row.itemStates.get? ref = some .pending) (hissued : job.jobId ∈ doc'.issued)
    (hget : doc'.registry.jobs.get? job.jobId = some (row.beginItem ref)) :
    ¬ Touched s (job.jobId, ref) ∧ Committed doc' (job.jobId, ref) := by
  have hactive : row.status.terminal = false := by
    rw [hholds.running]
    rfl
  constructor
  · intro htouched
    exact (((h.touched _ htouched).begun row hholds.get hactive).2).2 hpending
  · refine ⟨hissued, fun row' hget' _ => ?_⟩
    change doc'.registry.jobs.get? job.jobId = some row' at hget'
    obtain rfl : row.beginItem ref = row' := Option.some.inj (hget.symm.trans hget')
    have hkind : (row.beginItem ref).kind = job.kind :=
      (Job.kind_of_header (Job.beginItem_header row ref)).trans (hknown.kind row hholds.get hactive)
    refine ⟨hkind ▸ hfollowed, ?_, ?_⟩
    · rw [Job.beginItem_states, if_pos ⟨rfl, hpending⟩]
      simp
    · rw [Job.beginItem_states, if_pos ⟨rfl, hpending⟩]
      simp

theorem RunnersOk.agrees (h : RunnersOk s) (hw : s.worker c = .executing job token p) (row : Job)
    (hholds : Holds s.doc.registry job.jobId token row) : p.Agrees job row.itemStates := by
  have hplaced := h.placed c
  rw [hw] at hplaced
  exact hplaced job token row rfl hholds

theorem complete_follows {rest : List (String × ItemState)} {error : Option String}
    (h : RunnersOk s) (hw : s.worker c = .executing job token (.complete ref rest error))
    (hch : (Op.completeItem job.jobId token ref error).change env s.doc = .ok (val, doc')) :
    ∀ row, Holds doc'.registry job.jobId token row → Follows row.itemStates rest := by
  have hf := h.formed c
  rw [hw] at hf
  obtain ⟨row, hholds, rfl, hget⟩ := held_change h.sound rfl hch
  intro row' hholds'
  obtain rfl := Option.some.inj (hget.symm.trans hholds'.get)
  refine follows_of_written hf.2.2 (h.agrees hw _ hholds) fun ref' hne => ?_
  rcases Job.completeItem_states row ref error ref' with hsame | ⟨heq, -⟩
  · exact hsame
  · exact absurd heq hne

theorem call_raises (h : RunnersOk s) (hw : s.worker c = .executing job token p)
    (hop : p.call job token = some op) (hch : op.change env s.doc = .ok (val, doc'))
    (reason : String) : WorkerMove s doc' c (p.raised job token reason) := by
  refine h.raised hw reason ?_
  rintro ref rest (rfl | rfl)
  · cases hop
  · obtain rfl := Option.some.inj hop
    exact complete_follows h hw hch

/-- **A call that is written**: whatever the runner learns of it, it knows enough where it
goes on. -/
theorem call_returns (h : RunnersOk s) (hw : s.worker c = .executing job token p)
    (hop : p.call job token = some op) (m : DocMove op.writer s.doc doc')
    (hch : op.change env s.doc = .ok (val, doc')) :
    WorkerMove s doc' c (p.returned job token val) := by
  have hf := h.formed c
  have hknown : Known s.doc job token := h.known c job token (by rw [hw]; rfl)
  rw [hw] at hf
  have hquiet : ∀ p' : Point, p'.armed job = none → ∀ x, p'.armed job = some x →
      p.armed job = some x ∨ ¬ Touched s x ∧ Committed doc' x := by
    intro p' hnone x hx
    rw [hnone] at hx
    cases hx
  cases p with
  | renewing k =>
    obtain rfl := Option.some.inj hop
    obtain ⟨row, hholds, rfl, hget⟩ := held_change h.sound rfl hch
    have hk : k.Agrees job (row.renew env runnerLeaseMillis).itemStates := h.agrees hw row hholds
    apply h.point hw (next_formed hf.1 hf.2 hk)
    · intro row' hholds'
      obtain rfl := Option.some.inj (hget.symm.trans hholds'.get)
      exact next_agrees hf.1 hf.2 hk
    · exact hquiet _ (next_armed job _ token k)
  | progressing ref rest =>
    obtain rfl := Option.some.inj hop
    obtain ⟨row, hholds, rfl, hget⟩ := held_change h.sound rfl hch
    refine h.point hw hf.2 ?_ (hquiet (.begin ref rest) rfl)
    intro row' hholds'
    obtain rfl := Option.some.inj (hget.symm.trans hholds'.get)
    exact h.agrees hw row hholds
  | begin ref rest =>
    obtain rfl := Option.some.inj hop
    obtain ⟨row, hholds, rfl, hget⟩ := held_change h.sound rfl hch
    have hfollows := h.agrees hw _ hholds
    refine h.point hw hf.2 ?_ ?_
    · intro row' hholds'
      obtain rfl := Option.some.inj (hget.symm.trans hholds'.get)
      refine follows_of_written hf.2.2 (follows_tail hfollows) fun ref' hne => ?_
      rw [Job.beginItem_states, if_neg fun hp => hne hp.1]
    · intro x hx
      obtain rfl := Option.some.inj hx
      right
      exact begin_commits h hknown (other_of_loops hf.2.1) hholds
        (hfollows _ mem_cons_self) (m.issued _ hknown.issued) hget
  | complete ref rest error =>
    obtain rfl := Option.some.inj hop
    exact h.point hw ⟨hf.2.1, remaining_tail hf.2.2⟩ (complete_follows h hw hch)
      (hquiet (.loop rest) rfl)
  | prepare seen =>
    obtain rfl := Option.some.inj hop
    obtain ⟨row, hholds, rfl, hget⟩ := held_change h.sound rfl hch
    have hseen : row.itemStates.get? job.kind.itemRef = seen := h.agrees hw _ hholds
    have hready : ∀ x, (if seen = some .succeeded then none
        else some (job.jobId, job.kind.itemRef)) = some x →
        ¬ Touched s x ∧ Committed doc' x := by
      intro x hx
      split at hx
      · cases hx
      · next hnot =>
          obtain rfl := Option.some.inj hx
          have hpending := hf.2.2.resolve_right hnot
          exact begin_commits h hknown (by rw [hf.2.1]; simp) hholds (hseen.trans hpending)
            (m.issued _ hknown.issued) hget
    change WorkerMove s doc' c (.executing job token
      (if job.kind = .tieredReset ∧ job.factoryScope then .fencing seen else .primed seen))
    split
    · exact h.point hw hf.2 (fun _ _ => trivial) fun x hx => .inr (hready x hx)
    · exact h.point hw hf.2 (fun _ _ => trivial) fun x hx => .inr (hready x hx)
  | fencing seen =>
    exact h.point hw hf.2 (fun _ _ => trivial) fun x hx => .inl hx
  | recording r =>
    change WorkerMove s doc' c (.executing job token
      (if job.kind = .tieredReset then .ending (resetOp job token r)
        else .gate (.wrapUp (appliedOp job token r))))
    split
    · exact h.point hw (reset_ends job token r) (fun _ _ => trivial) (hquiet (.ending _) rfl)
    · exact h.point hw ⟨rfl, rfl⟩ (fun _ _ => trivial) (hquiet (.gate (.wrapUp _)) rfl)
  | ending op' =>
    cases op' with
    | factoryCompact => exact h.point hw trivial (fun _ _ => trivial) (hquiet .reopening rfl)
    | _ => exact WorkerMove.idle s doc' c
  | reopening =>
    exact WorkerMove.idle s doc' c
  | unfencing reason =>
    exact h.point hw trivial (fun _ _ => trivial) (hquiet (.failing reason) rfl)
  | _ => cases hop

theorem perform_eq_some :
    s.perform op env = some r ↔ op.admissible env s.doc = true ∧ op.change env s.doc = r := by
  unfold Runners.perform
  split
  · next hadm => simp [hadm]
  · next hadm => simp [hadm]

theorem releasesEarly_of_not (h : op.isRelease = false) :
    ReleasesEarly op doc := by
  intro hrel
  rw [h] at hrel
  cases hrel

theorem RunnersOk.docMove (h : RunnersOk s) (hadm : op.admissible env s.doc = true)
    (hch : op.change env s.doc = .ok (val, doc')) (hrel : ReleasesEarly op s.doc) :
    DocMove op.writer s.doc doc' :=
  docMove_of_change h.sound h.fit hadm hch hrel

theorem RunnersOk.call (h : RunnersOk s) (hw : s.worker c = .executing job token p)
    {unseen : Option String} (hcall : s.call c job token p env unseen = some t) : RunnersOk t := by
  have hf := h.formed c
  rw [hw] at hf
  simp only [Runners.call, bind, Option.bind_eq_some_iff] at hcall
  obtain ⟨op, hop, r, hperform, hr⟩ := hcall
  obtain ⟨hadm, hch⟩ := perform_eq_some.mp hperform
  obtain ⟨hrelease, hwriter⟩ := call_writer hf.2 hop
  cases r with
  | error err =>
    obtain rfl := Option.some.inj hr
    apply h.move h.refl (fun _ _ hnone => by cases hnone)
    apply h.raised hw
    rintro ref rest (rfl | rfl) row hholds
    · cases hop
    · exact h.agrees hw _ hholds
  | ok r =>
    obtain ⟨val, doc'⟩ := r
    have m := h.docMove hadm hch (releasesEarly_of_not hrelease)
    have hown : ∀ id token', op.writer = some (id, token') →
        ∃ job, (s.worker c).lease = some (job, token') := by
      intro id token' hmine
      rcases hwriter with hnone | hlease
      · rw [hnone] at hmine
        cases hmine
      · rw [hlease] at hmine
        obtain ⟨rfl, rfl⟩ := Prod.mk.inj (Option.some.inj hmine)
        exact ⟨job, by rw [hw]; rfl⟩
    cases unseen with
    | none =>
      obtain rfl := Option.some.inj hr
      exact h.move m hown (call_returns h hw hop m hch)
    | some reason =>
      obtain rfl := Option.some.inj hr
      exact h.move m hown (call_raises h hw hop hch reason)

theorem Job.claim_settled {d : Registry} {j : Job} (hfit : Fit j)
    {leaseMillis : Nat} (hcand : j ∈ claimCandidates d env.nowMs) :
    Handed (j.claim env owner leaseMillis) := by
  have hactive := active_of_candidate hcand
  have hterm : j.status.terminal = false := by rcases hactive with h | h <;> rw [h] <;> rfl
  have hkept : ∀ ref, j.kind.handler ≠ .other → j.itemStates.get? ref ≠ none →
      (j.claim env owner leaseMillis).itemStates.get? ref ≠ none := by
    intro ref hfollowed hsome
    exact (claim_settles env owner leaseMillis hfollowed
      (hfit hfollowed hterm) hactive).2.1 ref hsome
  constructor
  · rw [Job.kind_of_header (Job.claim_header j env owner leaseMillis)]
    intro hfollowed
    exact (claim_settles env owner leaseMillis hfollowed (hfit hfollowed hterm) hactive).1
  · rw [Job.kind_of_header (Job.claim_header j env owner leaseMillis)]
    intro ref href
    have hfollowed : j.kind.handler ≠ .other := by simp [href]
    exact hkept ref hfollowed ((hfit hfollowed hterm).item ref href)
  · rw [Job.kind_of_header (Job.claim_header j env owner leaseMillis), (Job.claim_params _ _ _ _).1]
    intro hreplay
    exact (hfit (by simp [hreplay]) hterm).unique hreplay
  · rw [Job.kind_of_header (Job.claim_header j env owner leaseMillis), (Job.claim_params _ _ _ _).1]
    intro hreplay ref href
    have hfollowed : j.kind.handler ≠ .other := by simp [hreplay]
    exact hkept ref hfollowed ((hfit hfollowed hterm).fixtures hreplay ref href)

/-- **A claim that is handed out** is of a settled row, under a new token. -/
theorem claim_moves (h : RunnersOk s)
    (hadm : (Op.claimNext owner runnerLeaseMillis).admissible env s.doc = true)
    (hch : (Op.claimNext owner runnerLeaseMillis).change env s.doc =
      .ok (.claimed (some (job, token)), doc')) : WorkerMove s doc' c (.claimed job token) := by
  obtain ⟨ho, hissued, hs'⟩ := h.sound.change hadm hch
  generalize hd' : doc'.registry = d' at ho
  generalize hval : Val.claimed (some (job, token)) = val at ho
  cases ho with
  | @claimed _ _ row hfirst =>
    simp only [Val.claimed.injEq, Option.some.injEq, Prod.mk.injEq] at hval
    obtain ⟨rfl, rfl⟩ := hval
    have hcand := firstMin_mem hfirst
    have hrow := mem_claimCandidates h.sound.keyed hcand
    have hget : doc'.registry.jobs.get? (row.claim env owner runnerLeaseMillis).jobId =
        some (row.claim env owner runnerLeaseMillis) := by
      rw [hd', write_get?, if_pos rfl]
    have hdrawn : env.uuid ∈ (Op.claimNext owner runnerLeaseMillis).draws env := by
      simp [Op.draws]
    constructor
    · intro job' token' hlease
      obtain ⟨rfl, rfl⟩ := Prod.mk.inj (Option.some.inj hlease)
      refine .inr ⟨(draws_fresh hadm hdrawn).1, ?_, hs'.id_issued hget, ?_⟩
      · rw [hissued]
        exact mem_append_right _ hdrawn
      · intro row' hget' _
        rw [hget] at hget'
        rw [← Option.some.inj hget']
    · exact Job.claim_settled (h.fit _ row hrow) hcand
    · intro job' token' row' hlease hholds
      obtain ⟨rfl, rfl⟩ := Prod.mk.inj (Option.some.inj hlease)
      obtain rfl := Option.some.inj (hget.symm.trans hholds.get)
      exact fun _ => rfl
    · intro x hx
      cases hx
  | idle => cases hval
  | rowMissed hmissed => rcases hmissed with ⟨_, _, h⟩ | ⟨_, _, h⟩ | ⟨_, _, h⟩ <;> cases h
  | held hlease => cases hlease

theorem RunnersOk.perform (h : RunnersOk s)
    (hwriter : op.writer = none) (hrel : ReleasesEarly op s.doc) (hr : s.perform op env = some r) :
    RunnersOk (s.write r) := by
  obtain ⟨hadm, hch⟩ := perform_eq_some.mp hr
  cases r with
  | error err => exact h
  | ok r =>
    have m := h.docMove hadm hch hrel
    rw [hwriter] at m
    exact h.write m

theorem RunnersOk.handled (h : RunnersOk s) (hw : s.worker c = .executing job token .handling)
    (hlease : op.lease = some (job.jobId, token)) (hrelease : op.isRelease = false)
    (hr : s.perform op env = some r) : RunnersOk (s.write r) := by
  obtain ⟨hadm, hch⟩ := perform_eq_some.mp hr
  cases r with
  | error err => exact h
  | ok r =>
    obtain ⟨val, doc'⟩ := r
    have m := h.docMove hadm hch (releasesEarly_of_not hrelease)
    have hset : ({ s with doc := doc' } : Runners).setWorker c (s.worker c) =
        { s with doc := doc' } := by
      simp only [Runners.setWorker, Function.update_eq_self]
    change RunnersOk { s with doc := doc' }
    rw [← hset]
    apply h.move m
    · intro id token' hmine
      have hsame : op.writer = none ∨ op.writer = op.lease := by
        cases op <;> first | exact .inl rfl | exact .inr rfl
      rcases hsame with hnone | hsame
      · rw [hnone] at hmine
        cases hmine
      · rw [hsame, hlease] at hmine
        obtain ⟨rfl, rfl⟩ := Prod.mk.inj (Option.some.inj hmine)
        exact ⟨job, by rw [hw]; rfl⟩
    · have hf := h.formed c
      rw [hw] at hf ⊢
      exact h.point hw hf.2 (fun _ _ => trivial) (fun _ hx => by cases hx)

theorem RunnersOk.claim (h : RunnersOk s)
    {seen : Bool} (hclaim : s.claim c owner env seen = some t) : RunnersOk t := by
  simp only [Runners.claim, bind, Option.bind_eq_some_iff] at hclaim
  obtain ⟨r, hperform, hr⟩ := hclaim
  have hwritten := h.perform rfl (releasesEarly_of_not rfl) hperform
  obtain ⟨hadm, hch⟩ := perform_eq_some.mp hperform
  split at hr
  · next job token doc' =>
      have m : DocMove none s.doc doc' := h.docMove hadm hch (releasesEarly_of_not rfl)
      cases seen with
      | false =>
        obtain rfl := Option.some.inj hr
        exact hwritten
      | true =>
        obtain rfl := Option.some.inj hr
        exact h.move m (fun _ _ hnone => by cases hnone) (claim_moves h hadm hch)
  · obtain rfl := Option.some.inj hr
    exact hwritten

/-! ### Steps -/

/-- The runner does not start the effect of an item its checkpoint saw recorded as
succeeded. -/
def safeStart (s : Runners) (e : RunnerEvent) : Bool :=
  match e with
  | .start c =>
    match s.worker c with
    | .executing _ _ (.primed seen) => seen ≠ some .succeeded
    | _ => true
  | _ => true

theorem armed_of_start (hstart : p.start job.kind = some (ref, p')) (hf : p.Formed job token)
    (hsafe : ∀ seen, p = .primed seen → seen ≠ some .succeeded) :
    p.armed job = some (job.jobId, ref) ∧ p'.armed job = none ∧ p'.Formed job token ∧
      ∀ states, p.Agrees job states → p'.Agrees job states := by
  cases p with
  | ready ref' rest =>
    obtain ⟨rfl, rfl⟩ := Prod.mk.inj (Option.some.inj hstart)
    exact ⟨rfl, rfl, hf, fun _ ha => ha⟩
  | primed seen =>
    obtain ⟨rfl, rfl⟩ := Prod.mk.inj (Option.some.inj hstart)
    exact ⟨if_neg (hsafe seen rfl), rfl, hf.1, fun _ _ => trivial⟩
  | _ => cases hstart

theorem cancelled_ends (job : Job) (token : String) (k : Resume) :
    (k.cancelled job token).Formed job token ∧
      (∀ states, (k.cancelled job token).Agrees job states) ∧
      (k.cancelled job token).armed job = none := by
  cases k with
  | item ref rest =>
    simp only [Resume.cancelled]
    split
    · exact ⟨trivial, fun _ => trivial, rfl⟩
    · exact ⟨⟨rfl, rfl⟩, fun _ => trivial, rfl⟩
  | _ => exact ⟨⟨rfl, rfl⟩, fun _ => trivial, rfl⟩

theorem RunnersOk.checkpoint (h : RunnersOk s) (hw : s.worker c = .executing job token (.gate k))
    (authority : Bool) : RunnersOk (s.setWorker c
      (.executing job token (checkpointRead s.doc.registry job token authority k))) := by
  unfold checkpointRead
  split
  · exact h.between hw (fun _ => trivial) (fun _ _ => trivial) (fun _ hx => by cases hx)
  · split
    · exact h.between hw (fun _ => trivial) (fun _ _ => trivial) (fun _ hx => by cases hx)
    · split
      · obtain ⟨hformed, hagrees, harmed⟩ := cancelled_ends job token k
        exact h.between hw (fun _ => hformed) (fun states _ => hagrees states)
          (fun _ hx => by rw [harmed] at hx; cases hx)
      · split
        · exact h.between hw (fun hf => hf) (fun _ ha => ha) (fun _ hx => by cases hx)
        · exact h.between hw (fun _ => ⟨rfl, rfl⟩) (fun _ _ => trivial) (fun _ hx => by cases hx)

theorem RunnersOk.advance (h : RunnersOk s) (hw : s.worker c = .executing job token p)
    (hstep : p.advance s.doc.registry job token = some w') : RunnersOk (s.setWorker c w') := by
  cases p with
  | building =>
    obtain rfl := Option.some.inj hstep
    have hf := h.formed c
    rw [hw] at hf
    refine h.between hw (fun hreplay => ⟨by rw [hreplay]; rfl, ?_, ?_⟩) (fun _ ha => ha)
      (fun _ hx => by cases hx)
    · rw [Job.fixtures, List.map_map]
      exact (List.map_id _).symm ▸ hf.1.unique hreplay
    · intro e he
      obtain ⟨ref, -, rfl⟩ := List.mem_map.mp he
      simp
  | loop rest =>
    cases rest with
    | nil =>
      obtain rfl := Option.some.inj hstep
      split
      · exact h.between hw (fun _ => trivial) (fun _ _ => trivial) (fun _ hx => by cases hx)
      · exact h.between hw (fun _ => trivial) (fun _ _ => trivial) (fun _ hx => by cases hx)
    | cons e rest =>
      obtain ⟨ref, st⟩ := e
      simp only [Point.advance, Option.some.injEq] at hstep
      obtain rfl := hstep
      split
      · exact h.between hw (fun hf => ⟨hf.1, remaining_tail hf.2⟩)
          (fun _ ha => follows_tail ha) (fun _ hx => by cases hx)
      · next hnot =>
          rw [not_or] at hnot
          have hf := h.formed c
          rw [hw] at hf
          have hst : st = .pending := by
            have hsettled := hf.2.2.settled _ mem_cons_self
            cases st with
            | pending => rfl
            | processing => exact absurd rfl hsettled
            | succeeded => exact absurd rfl hnot.1
            | failed => exact absurd rfl hnot.2
          subst hst
          exact h.between hw (fun hf => hf) (fun _ ha => ha) (fun _ hx => by cases hx)
  | draining seen =>
    simp only [Point.advance] at hstep
    split at hstep
    · obtain rfl := Option.some.inj hstep
      exact h.between hw (fun hf => hf) (fun _ _ => trivial) (fun _ hx => hx)
    · obtain rfl := Option.some.inj hstep
      exact h.between hw (fun hf => hf) (fun _ _ => trivial) (fun _ hx => hx)
    · obtain rfl := Option.some.inj hstep
      exact h.between hw (fun _ => trivial) (fun _ _ => trivial) (fun _ hx => by cases hx)
  | failing reason =>
    simp only [Point.advance] at hstep
    split at hstep
    · obtain rfl := Option.some.inj hstep
      exact h.between hw (fun _ => ⟨rfl, rfl⟩) (fun _ _ => trivial) (fun _ hx => by cases hx)
    · obtain rfl := Option.some.inj hstep
      exact h.stop c
  | _ => cases hstep

theorem RunnersOk.divert (h : RunnersOk s) (hw : s.worker c = .executing job token p)
    {reason : String} (hdivert : p.diverted job token reason = some p') :
    RunnersOk (s.setWorker c (.executing job token p')) := by
  cases p with
  | building | loop | begin =>
    obtain rfl := Option.some.inj hdivert
    exact h.between hw (fun _ => trivial) (fun _ _ => trivial) (fun _ hx => by cases hx)
  | ready ref rest =>
    obtain rfl := Option.some.inj hdivert
    exact h.between hw (fun hf => hf) (fun _ ha => ha) (fun _ hx => by cases hx)
  | effect ref rest =>
    obtain rfl := Option.some.inj hdivert
    exact h.between hw (fun _ => ⟨rfl, rfl⟩) (fun _ _ => trivial) (fun _ hx => by cases hx)
  | _ => cases hdivert

theorem RunnersOk.releasesEarly (h : RunnersOk s) (hw : s.worker c = .claimed job token) :
    ReleasesEarly (.releaseClaim job.jobId token) s.doc := by
  intro _ id token' row hlease hholds hfollowed
  obtain ⟨rfl, rfl⟩ := Prod.mk.inj (Option.some.inj hlease)
  have hf := h.formed c
  have hp := h.placed c
  rw [hw] at hf hp
  have hactive : row.status.terminal = false := by
    rw [hholds.running]
    rfl
  have hkind := (h.known c job token (by rw [hw]; rfl)).kind row hholds.get hactive
  rw [hkind] at hfollowed
  have hstates : row.itemStates = job.itemStates := hp job token row rfl hholds hfollowed
  rw [hstates]
  exact hf.settled hfollowed

theorem RunnersOk.start (h : RunnersOk s) (hw : s.worker c = .executing job token p)
    (hstart : p.start job.kind = some (ref, p'))
    (hsafe : ∀ seen, p = .primed seen → seen ≠ some .succeeded) :
    RunnersOk { s.setWorker c (.executing job token p') with
      effects := s.effects ++ [(job.jobId, ref)] } := by
  have hf := h.formed c
  rw [hw] at hf
  obtain ⟨harmed, hspent, hformed, hagrees⟩ := armed_of_start hstart hf.2 hsafe
  have hc : (s.worker c).armed = some (job.jobId, ref) := by
    rw [hw]
    exact harmed
  have hmoved : RunnersOk (s.setWorker c (.executing job token p')) :=
    h.between hw (fun _ => hformed) hagrees (fun x hx => by rw [hspent] at hx; cases hx)
  refine hmoved.record ?_ (h.touched _ (.inr ⟨c, hc⟩))
  rintro (heffect | ⟨c', hc'⟩)
  · exact h.unstarted c _ hc heffect
  · change (Function.update s.worker c (.executing job token p') c').armed = _ at hc'
    by_cases hsame : c' = c
    · rw [hsame, Function.update_self] at hc'
      rw [show (Worker.executing job token p').armed = p'.armed job from rfl, hspent] at hc'
      cases hc'
    · rw [Function.update_of_ne hsame] at hc'
      exact hsame (h.one c' c _ hc' hc)

/-- **One step keeps the invariant**, if it starts no effect a second time. -/
theorem RunnersOk.step {e : RunnerEvent} (h : RunnersOk s)
    (hsafe : safeStart s e = true) (hstep : s.step e = some t) : RunnersOk t := by
  cases e with
  | outside op env =>
    simp only [Runners.step, Option.ite_none_right_eq_some, Option.map_eq_some_iff] at hstep
    obtain ⟨hout, r, hperform, rfl⟩ := hstep
    have hnone : op.writer = none ∧ op.isRelease = false := by
      cases op <;> first | exact ⟨rfl, rfl⟩ | cases hout
    exact h.perform hnone.1 (releasesEarly_of_not hnone.2) hperform
  | claim c owner env seen =>
    simp only [Runners.step] at hstep
    split at hstep
    · exact h.claim hstep
    · cases hstep
  | release c env =>
    simp only [Runners.step] at hstep
    split at hstep
    · next job token hw =>
        obtain ⟨r, hperform, rfl⟩ := Option.map_eq_some_iff.mp hstep
        exact (h.perform rfl (h.releasesEarly hw) hperform).stop c
    · cases hstep
  | execute c =>
    simp only [Runners.step] at hstep
    split at hstep
    · next job token hw =>
        obtain rfl := Option.some.inj hstep
        have hf := h.formed c
        have hp := h.placed c
        rw [hw] at hf hp
        refine h.move h.refl (fun _ _ hnone => by cases hnone) ⟨?_, ⟨hf, trivial⟩, hp, ?_⟩
        · intro job' token' hlease
          rw [hw]
          exact .inl hlease
        · intro x hx
          cases hx
    · cases hstep
  | checkpoint c authority =>
    simp only [Runners.step] at hstep
    split at hstep
    · next job token k hw =>
        obtain rfl := Option.some.inj hstep
        exact h.checkpoint hw authority
    · cases hstep
  | call c env unseen =>
    simp only [Runners.step] at hstep
    split at hstep
    · next job token p hw => exact h.call hw hstep
    · cases hstep
  | raise c reason =>
    simp only [Runners.step] at hstep
    split at hstep
    · next job token p hw =>
        obtain rfl := Option.some.inj hstep
        have hp := h.placed c
        rw [hw] at hp
        apply h.move h.refl (fun _ _ hnone => by cases hnone)
        apply h.raised hw
        rintro ref rest (rfl | rfl) row hholds
        · exact hp job token row rfl hholds
        · exact hp job token row rfl hholds
    · cases hstep
  | advance c =>
    simp only [Runners.step] at hstep
    split at hstep
    · next job token p hw =>
        obtain ⟨w', hadvance, rfl⟩ := Option.map_eq_some_iff.mp hstep
        exact h.advance hw hadvance
    · cases hstep
  | divert c reason =>
    simp only [Runners.step] at hstep
    split at hstep
    · next job token p hw =>
        simp only [Option.ite_none_right_eq_some, Option.map_eq_some_iff] at hstep
        obtain ⟨-, p', hdivert, rfl⟩ := hstep
        exact h.divert hw hdivert
    · cases hstep
  | start c =>
    simp only [Runners.step] at hstep
    split at hstep
    · next job token p hw =>
        obtain ⟨⟨ref, p'⟩, hstart, rfl⟩ := Option.map_eq_some_iff.mp hstep
        apply h.start hw hstart
        rintro seen rfl
        simpa [safeStart, hw] using hsafe
    · cases hstep
  | returned c r =>
    simp only [Runners.step] at hstep
    split at hstep
    · next job token ref rest hw =>
        obtain rfl := Option.some.inj hstep
        exact h.between hw (fun hf => hf) (fun _ ha => ha) (fun _ hx => by cases hx)
    · next job token hw =>
        obtain rfl := Option.some.inj hstep
        exact h.between hw (fun hf => hf) (fun _ _ => trivial) (fun _ hx => by cases hx)
    · cases hstep
  | handle c op env =>
    simp only [Runners.step] at hstep
    split at hstep
    · next job token hw =>
        simp only [Option.ite_none_right_eq_some, Option.map_eq_some_iff] at hstep
        obtain ⟨⟨hlease, hrelease⟩, r, hperform, rfl⟩ := hstep
        exact h.handled hw hlease hrelease hperform
    · cases hstep
  | lost c =>
    obtain rfl := Option.some.inj hstep
    exact h.stop c

theorem runnersOk_start : RunnersOk noRunners where
  sound := Sound.init
  fit _ _ h := by cases h
  known _ _ _ h := by cases h
  distinct _ _ _ _ _ h := by cases h
  formed _ := trivial
  placed _ _ _ _ h := by cases h
  touched x hx := by
    rcases hx with heffect | ⟨c, harmed⟩
    · cases heffect
    · cases harmed
  once := nodup_nil
  unstarted _ _ h := by cases h
  one _ _ _ h := by cases h

/-- **An item's effect is started at most once**, in every run of any number of runners in
which no runner starts the effect of a handler with one item after its checkpoint saw the
item recorded as succeeded. -/
theorem effects_started_once {s : Runners}
    (h : runnerMachine.Reaches (fun s e => safeStart s e = true) s) (id ref : String) :
    s.effects.count (id, ref) ≤ 1 := by
  have hok : RunnersOk s := by
    refine Machine.invariant (I := RunnersOk) ?_ ?_ h
    · rintro s rfl
      exact runnersOk_start
    · exact fun s e t hI hsafe hstep => hI.step hsafe hstep
  exact List.nodup_iff_count_le_one.mp hok.once (id, ref)

def resetOnce : List RunnerEvent :=
  [.outside (.create (sampleSubmission "job-1" .tieredReset ResetScope.cases.params "now" 'a'))
      (sampleEnv 0 "u"),
    .claim 0 "w0" (sampleEnv 0 "t0") true, .execute 0,
    .checkpoint 0 true, .call 0 (sampleEnv 1 "u") none,
    .checkpoint 0 true, .call 0 (sampleEnv 2 "u") none,
    .call 0 (sampleEnv 3 "u") none, .start 0,
    .returned 0 ⟨3, 3, 0, true, true, 1, "1.0", "abc"⟩, .call 0 (sampleEnv 4 "u") none, .lost 0]

theorem effects_started_once_of_reset :
    ∃ s : Runners, runnerMachine.run noRunners resetOnce = some s ∧
      s.effects = [("job-1", "reset")] ∧ s.effects.count ("job-1", "reset") ≤ 1 := by
  have hrun : ((runnerMachine.run noRunners resetOnce).any fun s =>
      decide (s.effects = [("job-1", "reset")])) = true := by decide +kernel
  have hsafe : runnerMachine.Throughout (fun s e => safeStart s e = true) noRunners resetOnce := by
    decide +kernel
  obtain ⟨s, hs, heffects⟩ := (Option.any_eq_true _ _).mp hrun
  exact ⟨s, hs, of_decide_eq_true heffects,
    effects_started_once ⟨noRunners, resetOnce, rfl, hsafe, hs⟩ "job-1" "reset"⟩

/-- The next runner claims the job when the lease has run out, finds the item recorded as
succeeded, and resets again. -/
def resetAgain : List RunnerEvent :=
  resetOnce ++
    [.claim 1 "w1" (sampleEnv 400000 "t1") true, .execute 1,
      .checkpoint 1 true, .call 1 (sampleEnv 400001 "u") none,
      .checkpoint 1 true, .call 1 (sampleEnv 400002 "u") none,
      .call 1 (sampleEnv 400003 "u") none, .start 1]

/-- **An effect is started twice** when a runner is lost after it recorded the success and
before it finished the job. -/
theorem reset_started_twice :
    ∃ s : Runners, runnerMachine.Reaches Machine.anyStep s ∧
      ¬ s.effects.count ("job-1", "reset") ≤ 1 := by
  have hrun : ((runnerMachine.run noRunners resetAgain).any fun s =>
      decide (s.effects.count ("job-1", "reset") = 2)) = true := by decide +kernel
  obtain ⟨s, -, hreach, htwice⟩ :=
    Machine.reaches_of_run runnerMachine _ noRunners resetAgain rfl hrun
  refine ⟨s, hreach, ?_⟩
  rw [of_decide_eq_true htwice]
  decide

end AgenticKibana.Jobs
