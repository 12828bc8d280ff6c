import AgenticKibana.Batch.Store

/-!
# What each access of a batch call rests on

The contract says what stands in the history when a call writes: the mutation was admitted, the
job object of a `save` was obtained, the usage row of a result was recorded before its lease is
finalised, and its lease was granted before its usage row is written.  Only the revision and the
history are relied on, so it holds whatever the other calls do.
-/

namespace AgenticKibana.Batch

open AgenticKibana.Library Threads Routine List

/-! ### Facts of the history -/

def Mutation.inserts : Mutation → Option String
  | .save job | .createIfAbsent job => some job.id
  | _ => none

def Mutation.finalises : Mutation → Option (String × String)
  | .finalizeLease jobId cid _ _ => some (jobId, cid)
  | _ => none

def Wrote (τ : Nat) (c : Closure) (value : Value) (h : List Entry) : Prop :=
  ∃ env before after, Entry.wrote τ c env value before after ∈ h

def Recorded (τ : Nat) (jobId cid : String) (h : List Entry) : Prop :=
  ∃ row, Entry.recorded τ jobId cid row ∈ h ∧ row.key = Store.ledgerKey jobId cid

def Leased (τ : Nat) (jobId cid : String) (h : List Entry) : Prop :=
  ∃ states nowMs epoch value, Wrote τ (.mutation (.leaseClaim jobId states nowMs) epoch) value h ∧
    (Store.granted value).contains cid = true

def Finalised (τ : Nat) (jobId cid : String) (h : List Entry) : Prop :=
  ∃ token epoch value, Wrote τ (.mutation
    (.finalizeLease jobId cid token "succeeded") epoch) value h ∧
    Store.done value = true

/-- What a mutation rests on before it is admitted; `A` are the closures of the calls. -/
structure Ready (A : Closure → Prop) (τ : Nat) (m : Mutation) (h : List Entry) : Prop where
  allowed : ∀ epoch, A (.mutation m epoch)
  obtained : m.inserts.isSome = true → Entry.obtained τ ∈ h
  recorded : ∀ jobId cid, m.finalises = some (jobId, cid) → Recorded τ jobId cid h

structure Admitted (A : Closure → Prop) (τ : Nat) (c : Closure) (h : List Entry) : Prop where
  allowed : A c
  admitted : ∀ m epoch, c = .mutation m epoch → Entry.admitted τ m epoch ∈ h ∧ Ready A τ m h

section Prefix

variable {A : Closure → Prop} {τ : Nat} {h h' : List Entry} {c : Closure} {cid jobId : String}

theorem Wrote.mono {value : Value} (hw : Wrote τ c value h) (hh : h <+: h') :
    Wrote τ c value h' := by
  obtain ⟨env, before, after, hmem⟩ := hw
  exact ⟨env, before, after, hh.subset hmem⟩

theorem Recorded.mono (hr : Recorded τ jobId cid h) (hh : h <+: h') :
    Recorded τ jobId cid h' := by
  obtain ⟨row, hmem, hkey⟩ := hr
  exact ⟨row, hh.subset hmem, hkey⟩

theorem Leased.mono (hl : Leased τ jobId cid h) (hh : h <+: h') :
    Leased τ jobId cid h' := by
  obtain ⟨states, nowMs, epoch, value, hw, hcid⟩ := hl
  exact ⟨states, nowMs, epoch, value, hw.mono hh, hcid⟩

theorem Finalised.mono (hf : Finalised τ jobId cid h) (hh : h <+: h') :
    Finalised τ jobId cid h' := by
  obtain ⟨token, epoch, value, hw, hdone⟩ := hf
  exact ⟨token, epoch, value, hw.mono hh, hdone⟩

variable {m : Mutation}

theorem Ready.mono (hr : Ready A τ m h) (hh : h <+: h') : Ready A τ m h' where
  allowed := hr.allowed
  obtained := fun hm => hh.subset (hr.obtained hm)
  recorded := fun jobId cid hm => (hr.recorded jobId cid hm).mono hh

theorem Admitted.mono (ha : Admitted A τ c h) (hh : h <+: h') :
    Admitted A τ c h' where
  allowed := ha.allowed
  admitted := by
    intro m epoch hc
    obtain ⟨hmem, hready⟩ := ha.admitted m epoch hc
    exact ⟨hh.subset hmem, hready.mono hh⟩

theorem Ready.of_other (hA : ∀ epoch, A (.mutation m epoch)) (hi : m.inserts = none)
    (hf : m.finalises = none) : Ready A τ m h where
  allowed := hA
  obtained := by simp [hi]
  recorded := by simp [hf]

def Closure.isReset : Closure → Bool
  | .mutation _ _ => false
  | _ => true

theorem Admitted.of_reset (hA : A c) (hc : c.isReset = true) :
    Admitted A τ c h where
  allowed := hA
  admitted := by
    intro m epoch heq
    rw [heq] at hc
    cases hc

end Prefix

/-- What a call relies on: the others only add to the history, and every write moves the
revision on. -/
structure Rely (s t : World) : Prop where
  history : s.history <+: t.history
  rev : s.rev ≤ t.rev
  same : s.rev = t.rev → s.registry = t.registry

theorem Rely.refl (s : World) : Rely s s := ⟨prefix_rfl, Nat.le_refl _, fun _ => rfl⟩

theorem Rely.trans {s t u : World} (h : Rely s t) (h' : Rely t u) : Rely s u where
  history := h.history.trans h'.history
  rev := Nat.le_trans h.rev h'.rev
  same := by
    intro heq
    have hst : s.rev = t.rev := Nat.le_antisymm h.rev (heq ▸ h'.rev)
    exact (h.same hst).trans (h'.same (hst ▸ heq))

def Before (A : Closure → Prop) (τ : Nat) (s : World) : Act → Prop
  | .admission m => Ready A τ m s.history
  | .putIf c env value next base =>
    (base = s.rev → c.apply env s.registry = .ok (value, next)) ∧ Admitted A τ c s.history
  | .record jobId cid row =>
    Leased τ jobId cid s.history ∧ row.key = Store.ledgerKey jobId cid
  | _ => True

structure HandsBack (τ : Nat) (jobId : String) (recorded : List BatchResult) (h : List Entry) :
    Prop where
  finalised : ∀ res ∈ recorded, Finalised τ jobId (Jobs.strip res.customId) h
  nodup : (recorded.map fun res => Jobs.strip res.customId).Nodup

def Answered (τ : Nat) (request : Request) (s : World) : Outcome → Prop
  | .value _ => True
  | .results recorded => HandsBack τ request.folded recorded s.history

/-- Every closure that a call runs is one of `A`. -/
def Request.Within (A : Closure → Prop) : Request → Prop
  | .save _ => ∀ job epoch, A (.mutation (.save job) epoch)
  | .createIfAbsent _ => ∀ job epoch, A (.mutation (.createIfAbsent job) epoch)
  | .claimSubmission jobId => ∀ nowMs epoch, A (.mutation (.claimSubmission jobId nowMs) epoch)
  | .failSubmission jobId token error =>
    ∀ epoch, A (.mutation (.failSubmission jobId token error) epoch)
  | .completeSubmission jobId token remote =>
    ∀ epoch, A (.mutation (.completeSubmission jobId token remote) epoch)
  | .setInboxAudience jobId audience truncated =>
    ∀ epoch, A (.mutation (.setInboxAudience jobId audience truncated) epoch)
  | .markInboxProjection jobId username generation state signature =>
    ∀ epoch, A (.mutation (.markInboxProjection jobId username generation state signature) epoch)
  | .delete jobId => ∀ epoch, A (.mutation (.delete jobId) epoch)
  | .processResults job _ _ _ =>
    (∀ states nowMs epoch, A (.mutation (.leaseClaim job.id states nowMs) epoch)) ∧
    (∀ cid token error epoch, A (.mutation (.failLedgerLease job.id cid token error) epoch)) ∧
    ∀ cid token rstate epoch, A (.mutation (.finalizeLease job.id cid token rstate) epoch)
  | .claimReentries jobId _ =>
    ∀ wanted nowMs epoch, A (.mutation (.claimReentries jobId wanted nowMs) epoch)
  | .failReentry jobId cid token error =>
    ∀ epoch, A (.mutation (.failReentry jobId cid token error) epoch)
  | .completeReentry jobId cid token =>
    ∀ epoch, A (.mutation (.completeReentry jobId cid token) epoch)
  | .beginFactoryFence owner => A (.beginFactoryFence (Jobs.strip owner))
  | .clearAll owner => A (.clearAll (Jobs.strip (orEmpty owner)))
  | .releaseFactoryFence owner => A (.releaseFactoryFence (Jobs.strip owner))

def contract (A : Closure → Prop) : Contract Act Request Failure Outcome World where
  Inv _ := True
  Below n s := ∀ e ∈ s.history, e.by < n
  Rely _ := Rely
  refl _ := Rely.refl
  trans _ _ _ _ := Rely.trans
  Entry _ request _ := request.Within A
  Before τ a s := Before A τ s a
  Returns τ request outcome s := Answered τ request s outcome
  Raises _ _ _ _ := True

/-! ### Rules for the accesses -/

section Rules

variable {calls : Request → Bool} {A : Closure → Prop} {τ : Nat} {α β : Type} {Q : α → World → Prop}
  {s : World}

abbrev wpb (calls : Request → Bool) (A : Closure → Prop) (τ : Nat) (Q : α → World → Prop)
    (m : Prog α) (s : World) : Prop :=
  (batch calls).wpr (contract A) τ (fun a _ t => Q a t) (fun _ _ _ => True) m () s

variable {m : Prog α} {c : Closure} {env : Env} {cid : String} {t : World}

theorem wpb_stable (h : wpb calls A τ Q m s) (hs : Rely s t) : wpb calls A τ Q m t :=
  fun _ => wp_stable (h trivial) hs

theorem wpb_pure {a : α} (h : ∀ t, Rely s t → Q a t) : wpb calls A τ Q (pure a) s :=
  wpr_pure fun t ht _ => h t ht

variable {e : Failure}

theorem wpb_raise : wpb calls A τ Q (Routine.raise e) s :=
  wpr_raise fun _ _ _ => trivial

theorem wpb_bind {Q : β → World → Prop} {f : α → Prog β}
    (h : wpb calls A τ (fun a t => wpb calls A τ Q (f a) t) m s) : wpb calls A τ Q (m >>= f) s :=
  wpr_bind h

theorem wpb_mono {Q' : α → World → Prop} (h : wpb calls A τ Q m s)
    (hQ : ∀ a t, (∀ u, Rely t u → Q a u) → Q' a t) : wpb calls A τ Q' m s :=
  wpr_mono h (fun a _ t _ ht => hQ a t fun u hu => ht u hu trivial) fun _ _ _ _ _ => trivial

theorem wpb_ofExcept_bind {x : Except Failure α} {Q : β → World → Prop} {f : α → Prog β}
    (h : ∀ a, x = .ok a → wpb calls A τ Q (f a) s) :
    wpb calls A τ Q (Routine.ofExcept x >>= f) s := by
  refine wpr_bind (wpr_ofExcept ?_ fun _ _ _ _ _ => trivial)
  intro a t hx ht _
  exact wpb_stable (h a hx) ht

theorem wpb_when_bind {p : Bool} {f : Unit → Prog α} (h : p = false → wpb calls A τ Q (f ()) s) :
    wpb calls A τ Q (Routine.when p (Routine.raise e) >>= f) s := by
  refine wpr_bind (wpr_when (fun _ => wpr_raise fun _ _ _ => trivial) ?_)
  intro hp t ht _
  exact wpb_stable (h hp) ht

variable {a : Act} {f : a.Reply → Prog α}

theorem wpb_act_bind (hbefore : ∀ s', Rely s s' → Before A τ s' a)
    (hnext : ∀ s' fresh answer t r new, Rely s s' →
      effect τ fresh a answer s' = some (t, r, new) →
        new = [] ∧ Rely s' t ∧ wpb calls A τ Q (f r) t) :
    wpb calls A τ Q (Store.act a >>= f) s := by
  refine wpr_bind (wpr_perform fun s' hs _ => ⟨hbefore s' hs, ?_⟩)
  intro fresh answer t r new _ hp
  obtain ⟨rfl, hrely, hrest⟩ := hnext s' fresh answer t r new hs hp
  refine ⟨trivial, fun _ _ => hrely, fun i n hn => by simp at hn, ?_⟩
  intro t' ht' _
  exact wpb_stable hrest ht'

theorem wpb_read_bind (hbefore : ∀ s', Before A τ s' a)
    (hreads : ∀ s' fresh answer t r new, effect τ fresh a answer s' = some (t, r, new) →
      new = [] ∧ t = s')
    (h : ∀ s' fresh answer r new, Rely s s' → effect τ fresh a answer s' = some (s', r, new) →
      wpb calls A τ Q (f r) s') : wpb calls A τ Q (Store.act a >>= f) s := by
  refine wpb_act_bind (fun s' _ => hbefore s') ?_
  intro s' fresh answer t r new hs hp
  obtain ⟨hnew, rfl⟩ := hreads s' fresh answer t r new hp
  exact ⟨hnew, Rely.refl _, h _ fresh answer r new hs hp⟩

theorem wpb_now_bind {f : Nat → Prog α} (h : ∀ now s', Rely s s' → wpb calls A τ Q (f now) s') :
    wpb calls A τ Q (Store.act .now >>= f) s := by
  refine wpb_read_bind (fun _ => trivial) ?_ fun s' _ _ r _ hs _ => h r s' hs
  intro s' fresh answer t r new hp
  cases hp
  exact ⟨rfl, rfl⟩

theorem wpb_env_bind {f : Env → Prog α} (h : ∀ env s', Rely s s' → wpb calls A τ Q (f env) s') :
    wpb calls A τ Q (Store.act .env >>= f) s := by
  refine wpb_read_bind (fun _ => trivial) ?_ fun s' _ _ r _ hs _ => h r s' hs
  intro s' fresh answer t r new hp
  cases hp
  exact ⟨rfl, rfl⟩

theorem wpb_checkJobsFence_bind {message : String} {f : Unit → Prog α}
    (h : ∀ s', Rely s s' → wpb calls A τ Q (f ()) s') :
    wpb calls A τ Q (Store.checkJobsFence message >>= f) s := by
  have hcheck : wpb calls A τ (fun _ t => Rely s t) (Store.checkJobsFence message) s := by
    refine wpb_read_bind (fun _ => trivial) ?_ fun s' _ _ r _ hs _ => ?_
    · intro s' fresh answer t r new hp
      cases hp
      exact ⟨rfl, rfl⟩
    · refine wpb_ofExcept_bind fun fence _ => wpr_when (fun _ => wpb_raise) ?_
      intro _ t ht _
      exact hs.trans ht
  refine wpb_bind (wpb_mono hcheck ?_)
  intro _ t ht
  exact h t (ht t (Rely.refl t))

theorem wpb_current_bind {f : Except Failure (Registry × Nat) → Prog α}
    (hok : ∀ s', Rely s s' → wpb calls A τ Q (f (.ok (s'.registry, s'.rev))) s')
    (herr : ∀ s', Rely s s' → wpb calls A τ Q (f (.error .backend)) s') :
    wpb calls A τ Q (Store.act .read >>= f) s := by
  refine wpb_read_bind (fun _ => trivial) ?_ ?_
  · intro s' fresh answer t r new hp
    cases hp
    exact ⟨rfl, rfl⟩
  · intro s' fresh answer r new hs hp
    have hreply : answer.reply (s'.registry, s'.rev) = r := by
      simp only [effect, Option.some.injEq, Prod.mk.injEq, true_and] at hp
      exact congrArg Prod.fst hp
    rw [← hreply]
    unfold Answer.reply
    split
    · exact hok s' hs
    · exact herr s' hs

theorem Rely.record (e : Entry) : Rely s (s.record e) where
  history := prefix_append _ _
  rev := Nat.le_refl _
  same := fun _ => rfl

variable {value : Value} {next : Registry} {base : Nat}

theorem Rely.putIf : Rely s (s.putIf τ c env value next base) := by
  unfold World.putIf
  split
  · exact ⟨prefix_append _ _, Nat.le_succ _, fun h => absurd h (Nat.ne_of_lt (Nat.lt_succ_self _))⟩
  · exact Rely.refl s

theorem Wrote.putIf (hbase : base = s.rev) :
    Wrote τ c value (s.putIf τ c env value next base).history := by
  rw [World.putIf, if_pos hbase]
  exact ⟨env, s.registry, next, mem_append_right _ (mem_singleton.mpr rfl)⟩

theorem wpb_putIf_bind {f : Except Failure Bool → Prog α} (hc : Admitted A τ c s.history)
    (happly : ∀ s', Rely s s' → base = s'.rev → c.apply env s'.registry = .ok (value, next))
    (hwrote : ∀ t, Rely s t → Wrote τ c value t.history → wpb calls A τ Q (f (.ok true)) t)
    (hlost : ∀ t, Rely s t → wpb calls A τ Q (f (.ok false)) t)
    (herr : ∀ t, Rely s t → wpb calls A τ Q (f (.error .backend)) t) :
    wpb calls A τ Q (Store.act (.putIf c env value next base) >>= f) s := by
  refine wpb_act_bind (fun s' hs => ⟨happly s' hs, hc.mono hs.history⟩) ?_
  intro s' fresh answer t r new hs hp
  simp only [effect] at hp
  split at hp
  · cases hp
    refine ⟨rfl, Rely.putIf, ?_⟩
    by_cases hbase : base = s'.rev
    · rw [decide_eq_true hbase]
      exact hwrote _ (hs.trans Rely.putIf) (Wrote.putIf hbase)
    · rw [decide_eq_false hbase]
      exact hlost _ (hs.trans Rely.putIf)
  · cases hp
    exact ⟨rfl, Rely.refl _, herr _ hs⟩
  · cases hp
    exact ⟨rfl, Rely.putIf, herr _ (hs.trans Rely.putIf)⟩

/-- **`kv_mutate_strict`**: if it returns, its closure was written with the value it returns. -/
theorem wpb_kvMutateStrict {n : Nat} {Q : Value → World → Prop} (hc : Admitted A τ c s.history)
    (hQ : ∀ value t, Rely s t → Wrote τ c value t.history → Q value t) :
    wpb calls A τ Q (Store.kvMutateStrict c n) s := by
  induction n generalizing s with
  | zero => exact wpb_raise
  | succ n ih =>
    refine wpb_current_bind ?_ ?_
    · intro s1 h1
      refine wpb_ofExcept_bind fun current hcurrent => ?_
      cases hcurrent
      refine wpb_env_bind fun env s2 h2 => ?_
      refine wpb_ofExcept_bind fun changed happly => ?_
      have h12 : Rely s s2 := h1.trans h2
      refine wpb_putIf_bind (hc.mono h12.history) ?_ ?_ ?_ ?_
      · intro s3 h3 hbase
        rw [← (h2.trans h3).same hbase]
        exact happly
      · intro t ht hw
        refine wpb_ofExcept_bind fun written hwritten => ?_
        cases hwritten
        exact wpb_pure fun u hu => hQ _ u ((h12.trans ht).trans hu) (hw.mono hu.history)
      · intro t ht
        refine wpb_ofExcept_bind fun written hwritten => ?_
        cases hwritten
        refine ih (hc.mono (h12.trans ht).history) ?_
        intro value u hu hw
        exact hQ value u ((h12.trans ht).trans hu) hw
      · intro t ht
        refine wpb_ofExcept_bind fun written hwritten => ?_
        cases hwritten
    · intro s1 h1
      refine wpb_ofExcept_bind fun current hcurrent => ?_
      cases hcurrent

theorem wpb_admit_bind {m : Mutation} {f : Except Failure Registry → Prog α}
    (hm : Ready A τ m s.history)
    (h : ∀ r t, Rely s t → (∀ admitted, r = .ok admitted →
      Entry.admitted τ m admitted.resetEpoch ∈ t.history) → wpb calls A τ Q (f r) t) :
    wpb calls A τ Q (Store.act (.admission m) >>= f) s := by
  refine wpb_act_bind (fun s' hs => hm.mono hs.history) ?_
  intro s' fresh answer t r new hs hp
  cases hp
  refine ⟨rfl, Rely.record _, h _ _ (hs.trans (Rely.record _)) ?_⟩
  intro admitted hr
  unfold Answer.reply at hr
  split at hr
  · cases hr
    exact mem_append_right _ (mem_singleton.mpr rfl)
  · cases hr

/-- **`_mutate`**: if it returns, the mutation was written at the epoch it was admitted at. -/
theorem wpb_mutate {m : Mutation} {Q : Value → World → Prop} (hm : Ready A τ m s.history)
    (hQ : ∀ epoch value t, Rely s t → Wrote τ (.mutation m epoch) value t.history → Q value t) :
    wpb calls A τ Q (Store.mutate m) s := by
  refine wpb_checkJobsFence_bind fun s1 h1 => ?_
  refine wpb_admit_bind (hm.mono h1.history) fun reply s2 h2 hadmitted => ?_
  refine wpb_ofExcept_bind fun admitted hreply => wpb_when_bind fun _ => ?_
  have h12 : Rely s s2 := h1.trans h2
  have hc : Admitted A τ (.mutation m admitted.resetEpoch) s2.history := by
    refine ⟨hm.allowed _, ?_⟩
    rintro m' epoch heq
    cases heq
    exact ⟨hadmitted admitted hreply, hm.mono h12.history⟩
  refine wpb_bind (wpb_kvMutateStrict hc fun value s3 h3 hw => ?_)
  refine wpb_checkJobsFence_bind fun s4 h4 => wpb_pure fun t ht => ?_
  have h4t : Rely s3 t := h4.trans ht
  exact hQ admitted.resetEpoch value t ((h12.trans h3).trans h4t) (hw.mono h4t.history)

theorem wpb_mutate_bind {m : Mutation} {f : Value → Prog α} (hm : Ready A τ m s.history)
    (h : ∀ epoch value t, Rely s t → Wrote τ (.mutation m epoch) value t.history →
      wpb calls A τ Q (f value) t) :
    wpb calls A τ Q (Store.mutate m >>= f) s :=
  wpb_bind (wpb_mutate hm h)

theorem wpb_withObject {object : Jobs → Option BatchJob} {m : BatchJob → Mutation}
    (hA : ∀ job epoch, A (.mutation (m job) epoch))
    (hm : ∀ job, (m job).finalises = none) :
    wpb calls A τ (fun _ _ => True) (Store.withObject object m) s := by
  refine wpb_act_bind (fun _ _ => trivial) ?_
  intro s' fresh answer t r new hs hp
  cases hp
  refine ⟨rfl, Rely.record _, wpb_ofExcept_bind fun rows _ => ?_⟩
  cases object rows with
  | none => exact wpb_pure fun _ _ => trivial
  | some job =>
    refine wpb_mutate ⟨hA job, fun _ => ?_, ?_⟩ fun _ _ _ _ _ => trivial
    · exact mem_append_right _ (mem_singleton.mpr rfl)
    · simp [hm job]

variable {results : List BatchResult} {res : BatchResult}

theorem byCustomId_key (h : (Store.byCustomId results).get? cid = some res) :
    Jobs.strip res.customId = cid := by
  have hfold : ∀ (results : List BatchResult) (byId : Dict String BatchResult),
      (∀ cid res, byId.get? cid = some res → Jobs.strip res.customId = cid) →
      ∀ cid res, (results.foldl (fun byId res =>
        if Jobs.strip res.customId = "" then byId
        else byId.setDefault (Jobs.strip res.customId) res) byId).get? cid = some res →
        Jobs.strip res.customId = cid := by
    intro results
    induction results with
    | nil => exact fun _ hbyId => hbyId
    | cons r results ih =>
      intro byId hbyId
      refine ih _ ?_
      intro cid res hget
      dsimp only at hget
      split at hget
      · exact hbyId cid res hget
      · unfold Dict.setDefault at hget
        split at hget
        · exact hbyId cid res hget
        · rw [Dict.get?_set] at hget
          split at hget
          · cases hget
            exact (‹cid = _›).symm
          · exact hbyId cid res hget
  exact hfold results Dict.empty (fun _ _ hget => by simp at hget) cid res h

/-- What the loop of `process_results` over `leases`, entered in `s`, has left in `t`. -/
structure Folded (τ : Nat) (jobId : String) (leases : List (String × String)) (s : World)
    (recorded : List BatchResult) (t : World) : Prop where
  rely : Rely s t
  handsBack : HandsBack τ jobId recorded t.history
  leased : ∀ res ∈ recorded, Jobs.strip res.customId ∈ leases.map Prod.fst

variable {jobId : String} {leases : List (String × String)} {recorded : List BatchResult}

theorem Folded.skip {token : String} {u : World} (h : Folded τ jobId leases t recorded u)
    (hst : Rely s t) : Folded τ jobId ((cid, token) :: leases) s recorded u where
  rely := hst.trans h.rely
  handsBack := h.handsBack
  leased := fun res hres => mem_cons_of_mem _ (h.leased res hres)

theorem Folded.cons {token : String} {u : World} (h : Folded τ jobId leases t recorded u)
    (hst : Rely s t) (hcid : Jobs.strip res.customId = cid) (hnew : cid ∉ leases.map Prod.fst)
    (hf : Finalised τ jobId cid t.history) :
    Folded τ jobId ((cid, token) :: leases) s (res :: recorded) u where
  rely := hst.trans h.rely
  handsBack := by
    constructor
    · intro res' hres'
      rcases mem_cons.mp hres' with rfl | hres'
      · rw [hcid]
        exact hf.mono h.rely.history
      · exact h.handsBack.finalised res' hres'
    · rw [map_cons, nodup_cons, hcid]
      refine ⟨?_, h.handsBack.nodup⟩
      intro hmem
      obtain ⟨res', hres', heq⟩ := List.mem_map.mp hmem
      exact hnew (heq ▸ h.leased res' hres')
  leased := by
    intro res' hres'
    rcases mem_cons.mp hres' with rfl | hres'
    · rw [hcid]
      exact mem_cons_self
    · exact mem_cons_of_mem _ (h.leased res' hres')

theorem wpb_record_bind {row : LedgerRow} {f : Except Failure Unit → Prog α}
    (hl : Leased τ jobId cid s.history) (hkey : row.key = Store.ledgerKey jobId cid)
    (hok : ∀ t, Rely s t → Recorded τ jobId cid t.history → wpb calls A τ Q (f (.ok ())) t)
    (herr : ∀ t, Rely s t → wpb calls A τ Q (f (.error .backend)) t) :
    wpb calls A τ Q (Store.act (.record jobId cid row) >>= f) s := by
  refine wpb_act_bind (fun s' hs => ⟨hl.mono hs.history, hkey⟩) ?_
  intro s' fresh answer t r new hs hp
  have hwrite : Rely s' (s'.write row) := ⟨prefix_rfl, Nat.le_refl _, fun _ => rfl⟩
  simp only [effect] at hp
  split at hp
  · cases hp
    have hrecord : Rely s' ((s'.write row).record (.recorded τ jobId cid row)) :=
      hwrite.trans (Rely.record _)
    refine ⟨rfl, hrecord, hok _ (hs.trans hrecord) ⟨row, ?_, hkey⟩⟩
    exact mem_append_right _ (mem_singleton.mpr rfl)
  · cases hp
    exact ⟨rfl, Rely.refl _, herr _ hs⟩
  · cases hp
    exact ⟨rfl, hwrite, herr _ (hs.trans hwrite)⟩

variable {job : BatchJob}

/-- **The loop of `process_results`**: what it returns was finalised by this call. -/
theorem wpb_foldLeases {byId : Dict String BatchResult} {role surface : String}
    (hfails : ∀ cid token error epoch, A
      (.mutation (.failLedgerLease job.id cid token error) epoch))
    (hfinal : ∀ cid token rstate epoch, A
      (.mutation (.finalizeLease job.id cid token rstate) epoch))
    (hbyId : ∀ cid res, byId.get? cid = some res → Jobs.strip res.customId = cid)
    (hleased : ∀ cid ∈ leases.map Prod.fst, Leased τ job.id cid s.history)
    (hnodup : (leases.map Prod.fst).Nodup) :
    wpb calls A τ (Folded τ job.id leases s) (Store.foldLeases job byId role surface leases) s := by
  induction leases generalizing s with
  | nil =>
    refine wpb_pure fun t ht => ⟨ht, ⟨?_, nodup_nil⟩, ?_⟩
    · exact fun _ hres => nomatch hres
    · exact fun _ hres => nomatch hres
  | cons lease leases ih =>
    obtain ⟨cid, token⟩ := lease
    simp only [map_cons, nodup_cons] at hnodup
    have hrest : ∀ t, Rely s t →
        wpb calls A τ (Folded τ job.id leases t)
          (Store.foldLeases job byId role surface leases) t := by
      intro t ht
      refine ih ?_ hnodup.2
      intro cid' hcid'
      exact (hleased cid' (mem_cons_of_mem _ hcid')).mono ht.history
    have hskip : ∀ t, Rely s t → wpb calls A τ (Folded τ job.id ((cid, token) :: leases) s)
        (Store.foldLeases job byId role surface leases) t := by
      intro t ht
      refine wpb_mono (hrest t ht) ?_
      intro recorded u hu
      exact (hu u (Rely.refl u)).skip ht
    have hfail : ∀ error t, Rely s t → wpb calls A τ (Folded τ job.id ((cid, token) :: leases) s)
        (Store.mutate (.failLedgerLease job.id cid token error) >>= fun _ =>
          Store.foldLeases job byId role surface leases) t := by
      intro error t ht
      refine wpb_mutate_bind (Ready.of_other (hfails cid token error) rfl rfl) ?_
      intro _ _ u hu _
      exact hskip u (ht.trans hu)
    simp only [Store.foldLeases]
    cases hres : byId.get? cid with
    | none => exact hfail _ s (Rely.refl s)
    | some res =>
      refine wpb_record_bind (hleased cid mem_cons_self) rfl ?_ ?_
      · intro t ht hrecorded
        refine wpb_mutate_bind ⟨hfinal cid token res.resultType, nofun, ?_⟩ ?_
        · intro jobId cid' heq
          cases heq
          exact hrecorded
        · intro epoch value u hu hw
          have hsu : Rely s u := ht.trans hu
          refine wpb_bind (wpb_mono (hrest u hsu) ?_)
          intro recorded v hv
          refine wpb_pure fun w hvw => ?_
          split
          · rename_i hdone
            rw [Bool.and_eq_true, beq_iff_eq] at hdone
            refine (hv w hvw).cons hsu (hbyId cid res hres) hnodup.1 ?_
            rw [hdone.2] at hw
            exact ⟨token, epoch, value, hw, hdone.1⟩
          · exact (hv w hvw).skip hsu
      · intro t ht
        exact hfail _ t ht

theorem wpb_processResults {role surface : String}
    (hA : (Request.processResults job results role surface).Within A) :
    wpb calls A τ (fun recorded t => HandsBack τ job.id recorded t.history)
      (Store.processResults job results role surface) s := by
  obtain ⟨hleases, hfails, hfinal⟩ := hA
  unfold Store.processResults
  dsimp only
  split
  · refine wpb_pure fun t _ => ⟨?_, nodup_nil⟩
    exact fun _ hres => nomatch hres
  · refine wpb_now_bind fun nowMs s1 h1 => wpb_mutate_bind
      (Ready.of_other (hleases _ nowMs) rfl rfl) ?_
    intro epoch value t ht hw
    refine wpb_mono (wpb_foldLeases hfails hfinal (fun cid res => byCustomId_key) ?_
      (Store.granted value).nodup) ?_
    · intro cid hcid
      refine ⟨_, nowMs, epoch, value, hw, ?_⟩
      rw [Dict.contains_iff]
      by_contra hnone
      have hget : (Store.granted value).get? cid = none := by
        rw [Option.eq_none_iff_forall_ne_some]
        intro v hv
        exact hnone ⟨v, hv⟩
      exact Dict.get?_eq_none_iff.mp hget hcid
    · intro recorded u hu
      exact (hu u (Rely.refl u)).handsBack

/-- **Every call meets the contract.** -/
theorem wp_program {request : Request} (h : request.Within A) :
    (batch calls).wp (contract A) τ ((contract A).Returns τ request) ((contract A).Raises τ request)
      (program request) s := by
  have hplain : ∀ {m : Prog Value}, wpb calls A τ (fun _ _ => True) m s →
      (batch calls).wp (contract A) τ ((contract A).Returns τ request)
        ((contract A).Raises τ request) (m.main () .value) s :=
    fun hm => wp_main trivial (wpr_mono hm (fun _ _ _ _ _ => trivial) fun _ _ _ _ _ => trivial)
  have hmutate : ∀ {m : Mutation}, (∀ epoch, A (.mutation m epoch)) → m.inserts = none →
      m.finalises = none → wpb calls A τ (fun _ _ => True) (Store.mutate m) s :=
    fun hA hi hf => wpb_mutate (Ready.of_other hA hi hf) fun _ _ _ _ _ => trivial
  have howned : ∀ {owner : String} {c : String → Closure},
      A (c (Jobs.strip owner)) → (∀ owner, (c owner).isReset = true) →
      wpb calls A τ (fun _ _ => True) (Store.owned owner c) s := by
    intro owner c hA hc
    unfold Store.owned
    split
    · exact wpb_raise
    · exact wpb_kvMutateStrict (Admitted.of_reset hA (hc _)) fun _ _ _ _ => trivial
  cases request with
  | save object | createIfAbsent object => exact hplain (wpb_withObject h fun _ => rfl)
  | claimSubmission jobId =>
    refine hplain (wpb_now_bind fun nowMs s' _ => ?_)
    exact wpb_mutate (Ready.of_other (h nowMs) rfl rfl) fun _ _ _ _ _ => trivial
  | failSubmission jobId token error | completeSubmission jobId token remote =>
    exact hplain (hmutate h rfl rfl)
  | setInboxAudience jobId audience truncated => exact hplain (hmutate h rfl rfl)
  | markInboxProjection jobId username generation state signature =>
    refine hplain ?_
    unfold Store.markInboxProjection
    split
    · exact hmutate h rfl rfl
    · exact wpb_raise
  | delete jobId => exact hplain (hmutate h rfl rfl)
  | processResults job results role surface =>
    exact wp_main trivial (wpb_processResults h)
  | claimReentries jobId customIds =>
    refine hplain (wpb_now_bind fun nowMs s' _ => ?_)
    exact wpb_mutate (Ready.of_other (h _ nowMs) rfl rfl) fun _ _ _ _ _ => trivial
  | failReentry jobId cid token error | completeReentry jobId cid token =>
    exact hplain (hmutate h rfl rfl)
  | beginFactoryFence owner => exact hplain (howned h fun _ => rfl)
  | clearAll owner =>
    have hA : A (.clearAll (Jobs.strip (orEmpty owner))) := h
    have hc : Admitted A τ (.clearAll (Jobs.strip (orEmpty owner))) s.history :=
      Admitted.of_reset hA rfl
    refine hplain ?_
    unfold Store.clearAllStrict
    exact wpb_kvMutateStrict hc fun _ _ _ _ => trivial
  | releaseFactoryFence owner => exact hplain (howned h fun _ => rfl)

end Rules

end AgenticKibana.Batch
