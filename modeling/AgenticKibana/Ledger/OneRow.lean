import AgenticKibana.Ledger.Claimed

/-!
# What a keyed append confirms, and one row for a key

A call that returns leaves a row that can be found, with the payload of a claim that is committed
and that nobody leases; a call whose payload conflicts with the claim is refused after three
requests at most, and no call ever changes the payload of the claim or a row.

Who creates the row holds a lease of the claim that the others respect, so a create within one's
own lease is the only one, provided that the row did not exist yet when the lease was given.
-/

namespace AgenticKibana.Ledger

open AgenticKibana.Library

def Confirmed (key : Key) (s : Store) : Prop :=
  ∃ claim ms, s.claim = some claim ∧ claimPayload key claim = .ok ms ∧ s.rows ≠ [] ∧
    (∀ row ∈ s.rows, canonicalJson row.payload = canonicalJson ms) ∧
    claim.state = .committed ∧ claim.projectionOwner = none

def SameEvidence (metadata : List String) (a b : Members) : Prop :=
  Json.pyEq (semantic metadata a) (semantic metadata b) = true

def Kept (s t : Store) : Prop :=
  (∀ claim, s.claim = some claim →
    ∃ claim', t.claim = some claim' ∧ claim'.payloadJson = claim.payloadJson) ∧ s.rows <+: t.rows

/-- The requests that a refused call still makes at most. -/
def Pc.left : Pc → Nat
  | .searching => 3
  | .claiming _ => 2
  | .reading => 1
  | _ => 0

def Pc.Refused : Pc → Prop
  | .searching | .claiming _ | .reading | .raised _ | .stopped => True
  | _ => False

section Steps

variable {key : Key} {ms : Members} {s t : Table} {e : Event} {c : Nat} {pc : Pc} {w : Writer}
  {r : Request}

theorem next_returned {s : Store} (hactive : pc.active = true) (h : pc.next key c r s = .returned) :
    (∃ claimed index attempt claim, pc = .finalising claimed index attempt ∧
      s.claim = some claim ∧ claim.settled index = true) ∨
    (∃ claimed index attempt current, pc = .committing claimed index attempt current ∧
      s.revision = current.rev) := by
  cases pc <;> grind [Pc.next, Pc.found, Pc.waitAgain, Pc.validated, Pc.active]

theorem Store.For.confirmed {s : Store} {claim : Claim} (h : s.For key ms claim)
    (hrows : s.rows ≠ []) (hstate : claim.state = .committed)
    (howner : claim.projectionOwner = none) : Confirmed key s :=
  ⟨claim, sorted ms, h.claim_eq, h.sound.claimPayload h.valid, hrows,
    fun row hrow => (h.rows row hrow).trans (canonicalJson_sorted ms).symm, hstate, howner⟩

/-- **The request that a call returns on** finds the claim settled or settles it. -/
theorem Claimed.confirmed (h : Claimed key ms s) (hw : s.writer c = some w)
    (hactive : w.pc.active = true) (hnext : w.pc.next key c w.request s.store = .returned) :
    Confirmed key (w.pc.effect key c s.store) := by
  obtain ⟨claim, hfor⟩ := h.store
  have hholds := h.writers c w hw
  rcases next_returned hactive hnext with ⟨claimed, index, attempt, current, hpc,
    hclaim, hsettled⟩ |
    ⟨claimed, index, attempt, current, hpc, hrev⟩
  · rw [hpc] at hholds ⊢
    obtain ⟨row, hrow, -⟩ := hholds.2.2
    cases hfor.claim_eq.symm.trans hclaim
    simp only [Claim.settled, Bool.and_eq_true, decide_eq_true_eq, Option.isNone_iff_eq_none]
      at hsettled
    exact hfor.confirmed (List.ne_nil_of_mem hrow) hsettled.1.1.1 hsettled.1.2
  · rw [hpc] at hholds ⊢
    obtain ⟨row, hrow, -⟩ := hholds.2.2.1
    have hset : Pc.effect key c s.store (.committing claimed index attempt current) =
        { s.store with claim := some (current.committed index) } := if_pos hrev
    have hfor' : Store.For key ms { s.store with claim := some (current.committed index) }
        (current.committed index) :=
      ⟨rfl, hfor.valid, hholds.2.2.2.committed index, hfor.rows⟩
    rw [hset]
    exact hfor'.confirmed (List.ne_nil_of_mem hrow) rfl rfl

theorem Pc.Holds.refused {rows : List Row} (h : pc.Holds key ms rows r)
    (hconflict : ¬ r.Validated ms) : pc.Refused := by
  cases pc with
  | searching | claiming | reading | raised | stopped => trivial
  | waiting | checking | creating | confirming => exact absurd h.2 hconflict
  | leasing | finalising | committing => exact absurd h.2.1 hconflict
  | returned | unleasing => exact absurd h.1 hconflict
  | releasing => exact absurd h hconflict

theorem Claimed.left_lt (h : Claimed key ms s)
    (hw : s.writer c = some w) (hconflict : ¬ w.request.Validated ms)
    (hended : pc.Ended key s.store e c w) : pc.left < w.pc.left := by
  obtain ⟨claim, hfor⟩ := h.store
  have hrefused := (h.writers c w hw).refused hconflict
  obtain ⟨hactive, hended⟩ := hended
  have hretry : validateRetry w.request.reject w.request.metadata w.request.payload.members
      (sorted ms) ≠ .ok () := hconflict
  cases hpc : w.pc with
  | searching =>
    rw [hpc] at hended
    rcases hended with rfl | rfl | ⟨rfl, -⟩
    · simp [Pc.failed, Pc.left]
    · simp [Pc.left]
    · simp only [Pc.next]
      cases s.store.find with
      | error e => simp [Pc.left]
      | ok found =>
        cases found with
        | none => simp [Pc.left]
        | some row =>
          dsimp only
          cases validateRetry w.request.reject w.request.metadata w.request.payload.members
            row.payload <;> simp [Pc.left]
  | claiming payload =>
    rw [hpc] at hended
    rcases hended with rfl | rfl | ⟨rfl, -⟩
    · simp [Pc.failed, Pc.left]
    · simp [Pc.left]
    · simp [Pc.next, hfor.claim_eq, Pc.left]
  | reading =>
    rw [hpc] at hended
    rcases hended with rfl | rfl | ⟨rfl, -⟩
    · simp [Pc.failed, Pc.left]
    · simp [Pc.left]
    · simp only [Pc.next, hfor.claim_eq, Pc.validated, hfor.sound.claimPayload hfor.valid]
      cases hcase : validateRetry w.request.reject w.request.metadata w.request.payload.members
        (sorted ms) with
      | error e => simp [Pc.left]
      | ok u => exact absurd hcase hretry
  | raised | stopped => simp [hpc, Pc.active] at hactive
  | waiting | checking | leasing | creating | confirming | finalising | committing | releasing
  | unleasing | returned =>
    rw [hpc] at hrefused
    exact absurd hrefused id

theorem failed_ne_returned (h : pc.active = true) (error : LedgerError) :
    pc.failed error ≠ .returned := by
  cases pc <;> simp_all [Pc.failed, Pc.active]

theorem Moved.writer (h : Moved key s e t) {w' : Writer} (hw : s.writer c = some w)
    (hw' : t.writer c = some w') : w' = w ∨ (w'.pc.Ended key s.store e c w ∧
      (w'.pc = .returned → t.store = w.pc.effect key c s.store)) := by
  cases h with
  | tick | rollover => exact .inl (Option.some.inj (hw'.symm.trans hw))
  | call r hnone =>
    rcases writer_update hw' with ⟨rfl, rfl⟩ | hold
    · exact absurd (hw.symm.trans hnone) (by simp)
    · exact .inl (Option.some.inj (hold.symm.trans hw))
  | idle pc hv hended hlost =>
    rcases writer_update hw' with ⟨rfl, rfl⟩ | hold
    · cases hw.symm.trans hv
      refine .inr ⟨hended, fun hreturned => ?_⟩
      obtain ⟨hactive, rfl | rfl | ⟨-, outcome, houtcome, he⟩⟩ := hended
      · exact absurd hreturned (failed_ne_returned hactive _)
      · exact absurd hreturned (by simp)
      · exact absurd (hlost c outcome he) houtcome
    · exact .inl (Option.some.inj (hold.symm.trans hw))
  | carried pc hv houtcome hended =>
    rcases writer_update hw' with ⟨rfl, rfl⟩ | hold
    · cases hw.symm.trans hv
      exact .inr ⟨hended, fun _ => rfl⟩
    · exact .inl (Option.some.inj (hold.symm.trans hw))

end Steps

section Runs

variable {key : Key} {s : Table}

def Known (key : Key) (s : Table) : Prop := Unclaimed s ∨ ∃ ms, Claimed key ms s

variable {t : Table}

theorem Known.step {e : Event} (h : Known key s) (hmove : Moved key s e t) :
    Known key t ∧ Kept s.store t.store := by
  rcases h with h | ⟨ms, h⟩
  · obtain ⟨hknown, hrows⟩ := h.step hmove
    exact ⟨hknown, by simp [h.claim], hrows ▸ List.prefix_rfl⟩
  · obtain ⟨hclaimed, hgrown⟩ := h.step hmove
    obtain ⟨old, hold⟩ := h.store
    obtain ⟨new, hnew⟩ := hclaimed.store
    refine ⟨.inr ⟨ms, hclaimed⟩, fun claim hclaim => ⟨new, hnew.claim_eq, ?_⟩, hgrown⟩
    cases hold.claim_eq.symm.trans hclaim
    rw [hnew.sound.payloadJson, hold.sound.payloadJson]

theorem known_of_fresh (h : Fresh s) : Known key s :=
  .inl ⟨h.claim, h.rows, h.valid, fun c w hw => by simp [h.writer c] at hw⟩

theorem known_of_reaches {P : Table → Event → Prop} (h : (ledgerMachine key).Reaches P s) :
    Known key s :=
  Machine.invariant (I := Known key) (fun _ hstart => known_of_fresh hstart)
    (fun _ _ _ hknown _ hstep => (hknown.step (moved_of_step hstep)).1) h

theorem Kept.trans {a b c : Store} (hab : Kept a b) (hbc : Kept b c) : Kept a c := by
  refine ⟨fun claim hclaim => ?_, hab.2.trans hbc.2⟩
  obtain ⟨first, hfirst, hsame⟩ := hab.1 claim hclaim
  obtain ⟨second, hsecond, hsame'⟩ := hbc.1 first hfirst
  exact ⟨second, hsecond, hsame'.trans hsame⟩

/-- **Along a run the claim keeps its payload and the rows stay.** -/
theorem kept_of_run (h : Known key s) {es : List Event}
    (hrun : (ledgerMachine key).run s es = some t) : Kept s.store t.store := by
  have hboth : Known key t ∧ Kept s.store t.store := by
    refine Machine.run_preserves (P := Machine.anyStep)
      (I := fun t => Known key t ∧ Kept s.store t.store) ?_
      ⟨h, fun claim hclaim => ⟨claim, hclaim, rfl⟩, List.prefix_rfl⟩
      (Machine.throughout_anyStep _ _ _) hrun
    intro u e v hu _ hstep
    obtain ⟨hknown, hkept⟩ := hu.1.step (moved_of_step hstep)
    exact ⟨hknown, hu.2.trans hkept⟩
  exact hboth.2

theorem validated_iff {r : Request} {ms : Members} (hreject : r.reject = true) :
    r.Validated ms ↔ SameEvidence r.metadata r.payload.members (sorted ms) :=
  validateRetry_eq_ok.trans ⟨fun h => h hreject, fun h _ => h⟩

/-- **A keyed append confirms what it says.**  On the step on which a call returns its row can be
found, with the payload of a claim that is committed and not leased; calls that return carried the
same evidence; a call with other evidence than the claim's never returns, and ends after three
requests at most; and no step changes the payload of the claim or a row. -/
theorem append_confirms (h : (ledgerMachine key).Reaches Machine.anyStep s) :
    (∀ e t c w w', Table.step key s e = some t → s.writer c = some w → t.writer c = some w' →
      w.pc ≠ .returned → w'.pc = .returned → Confirmed key t.store) ∧
    (∀ c d v w, s.writer c = some v → s.writer d = some w → v.pc = .returned → w.pc = .returned →
      v.request.reject = true → w.request.reject = true →
      v.request.metadata = w.request.metadata →
      SameEvidence v.request.metadata v.request.payload.members w.request.payload.members) ∧
    (∀ claim ms c w, s.store.claim = some claim → claimPayload key claim = .ok ms →
      s.writer c = some w → w.request.reject = true →
      ¬ SameEvidence w.request.metadata w.request.payload.members ms →
      w.pc.Refused ∧ ∀ e t w', Table.step key s e = some t → t.writer c = some w' →
        w' = w ∨ w'.pc.left < w.pc.left) ∧
    ∀ es t, (ledgerMachine key).run s es = some t → Kept s.store t.store := by
  have hknown := known_of_reaches h
  refine ⟨?_, ?_, ?_, fun es t hrun => kept_of_run hknown hrun⟩
  · intro e t c w w' hstep hw hw' hpc hpc'
    rcases (moved_of_step hstep).writer hw hw' with rfl | ⟨⟨hactive, hended⟩, hstore⟩
    · exact absurd hpc' hpc
    · rw [hstore hpc']
      have hnext : w.pc.next key c w.request s.store = .returned := by
        rcases hended with hfailed | hstopped | ⟨hnext, -⟩
        · exact absurd (hfailed.symm.trans hpc') (failed_ne_returned hactive _)
        · exact absurd (hstopped.symm.trans hpc') (by simp)
        · exact hnext.symm.trans hpc'
      rcases hknown with hunclaimed | ⟨ms, hclaimed⟩
      · have hearly := hunclaimed.writers c w hw
        rcases next_returned hactive hnext with ⟨_, _, _, _, heq, -⟩ | ⟨_, _, _, _, heq, -⟩
        all_goals
          rw [heq] at hearly
          exact absurd hearly id
      · exact hclaimed.confirmed hw hactive hnext
  · intro c d v w hv hw hvpc hwpc hvreject hwreject hmetadata
    rcases hknown with hunclaimed | ⟨ms, hclaimed⟩
    · have hearly := hunclaimed.writers c v hv
      rw [hvpc] at hearly
      exact absurd hearly id
    · have hvalid := hclaimed.writers c v hv
      have hvalid' := hclaimed.writers d w hw
      rw [hvpc] at hvalid
      rw [hwpc] at hvalid'
      have hsame := (validated_iff hvreject).mp hvalid.1
      have hsame' := (validated_iff hwreject).mp hvalid'.1
      rw [← hmetadata] at hsame'
      exact Json.pyEq_trans hsame (Json.pyEq_symm hsame')
  · intro claim ms c w hclaim hpayload hw hreject hother
    rcases hknown with hunclaimed | ⟨ms', hclaimed⟩
    · exact absurd (hclaim.symm.trans hunclaimed.claim) (by simp)
    · obtain ⟨claim', hfor⟩ := hclaimed.store
      cases hfor.claim_eq.symm.trans hclaim
      cases hpayload.symm.trans (hfor.sound.claimPayload hfor.valid)
      have hconflict : ¬ w.request.Validated ms' := fun hvalid =>
        hother ((validated_iff hreject).mp hvalid)
      refine ⟨(hclaimed.writers c w hw).refused hconflict, fun e t w' hstep hw' => ?_⟩
      rcases (moved_of_step hstep).writer hw hw' with rfl | ⟨hended, -⟩
      · exact .inl rfl
      · exact .inr (hclaimed.left_lt hw hconflict hended)

def emptyLedger : Table := ⟨⟨0, 0, [], none⟩, fun _ => none⟩

def eventKey : Key := ⟨"audit", "e1", by simp, by simp⟩

def emptyRequest : Request := ⟨⟨[], rfl⟩, true, []⟩

theorem fresh_emptyLedger : Fresh emptyLedger :=
  ⟨rfl, Nat.zero_le _, by simp [emptyLedger], fun _ => rfl⟩

set_option maxRecDepth 20000 in
theorem confirmed_alone : ∃ s t, (ledgerMachine eventKey).Reaches Machine.anyStep s ∧
    Table.step eventKey s (.request 0 .answered) = some t ∧ Confirmed eventKey t.store := by
  obtain ⟨s, -, hreaches, hlast⟩ := Machine.reaches_of_run (ledgerMachine eventKey)
    (fun s => (s.writer 0).any fun w => w.pc ≠ .returned &&
      (Table.step eventKey s (.request 0 .answered)).any fun t =>
        (t.writer 0).any fun w' => w'.pc = .returned)
    emptyLedger (.call 0 emptyRequest :: List.replicate 7 (.request 0 .answered))
    fresh_emptyLedger (by decide)
  simp only [Option.any_eq_true, Bool.and_eq_true, decide_eq_true_eq] at hlast
  obtain ⟨w, hw, hpc, t, hstep, w', hw', hpc'⟩ := hlast
  exact ⟨s, t, hreaches, hstep, (append_confirms hreaches).1 _ t 0 w w' hstep hw hw' hpc hpc'⟩

end Runs

/-! ### One row -/

def OwnLease (s : Table) (e : Event) : Prop :=
  ∀ c outcome w claimed told late, e = .request c outcome → outcome ≠ .lost →
    s.writer c = some w → w.pc = .creating claimed told late → s.store.now < told

/-- A create that is carried out is by a caller that was told of its lease before there was a row,
or the alias still writes to the index of a row. -/
def ToldBefore (s : Table) (e : Event) : Prop :=
  ∀ c outcome w claimed told late, e = .request c outcome → outcome ≠ .lost →
    s.writer c = some w → w.pc = .creating claimed told late →
    late = false ∨ ∃ row ∈ s.store.rows, row.index = s.store.writeIndex

def Store.Seen (s : Store) (current : Claim) : Prop :=
  ∃ claim, s.claim = some claim ∧ (current.rev < claim.rev ∨ current = claim)

/-- What a call knows of the lease: until a row exists the claim is leased to who was told so, and
afterwards no lease that was given before is left. -/
def Pc.Fenced (s : Store) (c : Nat) : Pc → Prop
  | .creating _ told late =>
    (s.rows = [] → s.now < told →
      ∃ claim, s.claim = some claim ∧ claim.projectionOwner = some c ∧ claim.leaseUntil = told) ∧
    (s.rows ≠ [] → late = false → told ≤ s.now)
  | .leasing _ _ current now =>
    s.Seen current ∧ (current.projectionOwner = none ∨ current.leaseUntil ≤ now) ∧ now ≤ s.now
  | .committing _ _ _ current => s.Seen current
  | .unleasing _ current _ => s.Seen current ∧ current.projectionOwner = some c
  | _ => True

structure Single (s : Table) : Prop where
  length : s.store.rows.length ≤ 1
  writers : ∀ c w, s.writer c = some w → w.pc.Fenced s.store c

section Steps

variable {key : Key} {ms : Members} {s t : Table} {e : Event} {rows : List Row} {store : Store}

theorem Pc.Early.fenced {pc : Pc} {c : Nat} (h : pc.Early rows) : pc.Fenced store c := by
  cases pc with
  | searching | claiming | raised | stopped => trivial
  | reading | waiting | checking | leasing | creating | confirming | finalising | committing
  | releasing | unleasing | returned => exact absurd h id

variable {c : Nat} {pc : Pc} {r : Request}

theorem failed_fenced (hactive : pc.active = true) (error : LedgerError) :
    (pc.failed error).Fenced store c := by
  cases pc with
  | returned | raised | stopped => simp [Pc.active] at hactive
  | searching | claiming | reading | waiting | checking | leasing | creating | confirming
  | finalising | committing | releasing | unleasing => trivial

variable {store' : Store}

theorem Pc.Fenced.later (h : pc.Fenced store c) (hclaim : store'.claim = store.claim)
    (hrows : store'.rows = store.rows) (hnow : store.now ≤ store'.now) : pc.Fenced store' c := by
  cases pc <;> simp only [Pc.Fenced, Store.Seen, hclaim, hrows] at h ⊢ <;> grind

variable {d : Nat} {claim : Claim}

theorem Pc.Fenced.set {next : Claim} (h : pc.Fenced store d) (hclaim : store.claim = some claim)
    (hrev : claim.rev < next.rev)
    (hfree : store.rows = [] → claim.projectionOwner = some d → claim.leaseUntil ≤ store.now) :
    pc.Fenced { store with claim := some next } d := by
  have hseen : ∀ {current}, store.Seen current →
      Store.Seen { store with claim := some next } current := by
    rintro current ⟨old, hold, hcurrent⟩
    cases hclaim.symm.trans hold
    refine ⟨next, rfl, .inl ?_⟩
    rcases hcurrent with hlt | rfl
    · exact hlt.trans hrev
    · exact hrev
  cases pc with
  | creating claimed told late =>
    refine ⟨fun hrows hnow => ?_, h.2⟩
    have hnow' : store.now < told := hnow
    obtain ⟨old, hold, howner, huntil⟩ := h.1 hrows hnow'
    cases hclaim.symm.trans hold
    have := hfree hrows howner
    omega
  | leasing claimed attempt current now => exact ⟨hseen h.1, h.2⟩
  | committing claimed index attempt current => exact hseen h
  | unleasing attempt current error => exact ⟨hseen h.1, h.2⟩
  | searching | claiming | reading | waiting | checking | confirming | finalising | releasing
  | returned | raised | stopped => trivial

theorem Store.Seen.eq {current : Claim} (h : store.Seen current)
    (hclaim : store.claim = some claim) (hrev : store.revision = current.rev) :
    current = claim := by
  obtain ⟨old, hold, hcurrent⟩ := h
  cases hclaim.symm.trans hold
  simp only [Store.revision, hclaim, Option.map_some, Option.getD_some] at hrev
  exact hcurrent.resolve_left (by omega)

theorem Pc.Fenced.rows_eq_nil {claimed : Members} {told : Nat}
    (h : (Pc.creating claimed told false).Fenced store c) (hlease : store.now < told) :
    store.rows = [] := by
  by_contra hrows
  have := h.2 hrows rfl
  omega

def Pc.Allowed (store : Store) (mover : Pc) : Prop :=
  ∀ claimed told late, mover = .creating claimed told late →
    store.now < told ∧ (late = false ∨ ∃ row ∈ store.rows, row.index = store.writeIndex)

theorem createRow_of_mem {payload : Members}
    (h : ∃ row ∈ store.rows, row.index = store.writeIndex) : store.createRow payload = store := by
  obtain ⟨row, hrow, hindex⟩ := h
  exact if_pos (List.any_eq_true.mpr ⟨row, hrow, decide_eq_true hindex⟩)

variable {mover : Pc}

/-- **What a request of one call leaves to another.** -/
theorem Pc.Fenced.other (h : pc.Fenced store d) (hne : d ≠ c) (hmover : mover.Fenced store c)
    (hholds : mover.Holds key ms store.rows r) (hclaim : store.claim = some claim)
    (hallowed : mover.Allowed store) : pc.Fenced (mover.effect key c store) d := by
  have hset : ∀ current next : Claim, store.Seen current → next.rev = current.rev + 1 →
      (store.rows = [] → current.projectionOwner = some d → current.leaseUntil ≤ store.now) →
      pc.Fenced (store.compareAndSet next current.rev) d := by
    intro current next hseen hrev hfree
    rcases compareAndSet_cases (s := store) next current.rev with heq | ⟨hcurrent, heq⟩
    · rw [heq]
      exact h
    · rw [heq]
      cases hseen.eq hclaim hcurrent
      exact h.set hclaim (by omega) hfree
  cases mover with
  | claiming payload =>
    have hsome : store.createClaim (newClaim key payload c store.now) = store :=
      if_pos (by rw [hclaim]; rfl)
    simp only [Pc.effect, hsome]
    exact h
  | leasing claimed attempt current now =>
    refine hset current _ hmover.1 rfl fun _ howner => ?_
    rcases hmover.2.1 with hnone | hle
    · exact absurd (hnone.symm.trans howner) (by simp)
    · have := hmover.2.2
      omega
  | committing claimed index attempt current =>
    refine hset current _ hmover rfl fun hrows _ => ?_
    obtain ⟨row, hrow, -⟩ := hholds.2.2.1
    exact absurd hrows (List.ne_nil_of_mem hrow)
  | unleasing attempt current error =>
    refine hset current _ hmover.1 rfl fun _ howner => ?_
    exact absurd (Option.some.inj (hmover.2.symm.trans howner)) hne.symm
  | creating claimed told late =>
    obtain ⟨hlease, hbefore⟩ := hallowed claimed told late rfl
    by_cases hthere : ∃ row ∈ store.rows, row.index = store.writeIndex
    · rw [Pc.effect, createRow_of_mem hthere]
      exact h
    obtain rfl := hbefore.resolve_right hthere
    -- the caller's lease is the claim's, so no other call has one that runs on
    have hnil := hmover.rows_eq_nil hlease
    obtain ⟨old, hold, howner, -⟩ := hmover.1 hnil hlease
    have hrow : store.createRow claimed =
        { store with rows := [⟨store.writeIndex, claimed⟩] } := by
      simp [Store.createRow, hnil]
    simp only [Pc.effect, hrow]
    cases pc with
    | creating claimed' told' late' =>
      refine ⟨fun hrows => absurd hrows (by simp), fun _ _ => ?_⟩
      by_contra hlt
      obtain ⟨old', hold', howner', -⟩ := h.1 hnil (not_le.mp hlt)
      cases hold.symm.trans hold'
      exact hne (Option.some.inj (howner'.symm.trans howner))
    | leasing | committing | unleasing => exact h
    | searching | claiming | reading | waiting | checking | confirming | finalising | releasing
    | returned | raised | stopped => trivial
  | searching | reading | waiting | checking | confirming | finalising | releasing | returned
  | raised | stopped => exact h

/-- **Where a call stands once its own request is answered.** -/
theorem Pc.Fenced.next (h : pc.Fenced store c) (hclaim : store.claim = some claim) :
    (pc.next key c r store).Fenced (pc.effect key c store) c := by
  have hseen : store.Seen claim := ⟨claim, hclaim, .inr rfl⟩
  cases pc with
  | checking claimed attempt =>
    simp only [Pc.next, hclaim, Pc.effect]
    cases claimPayload key claim with
    | error e => trivial
    | ok payload =>
      dsimp only
      split
      · trivial
      split
      · next hown =>
          refine ⟨fun _ _ => ⟨claim, hclaim, hown.1, rfl⟩, fun hrows hlate => ?_⟩
          exact absurd hrows (by simpa using hlate)
      split
      · next hfree => exact ⟨hseen, hfree, le_rfl⟩
      · unfold Pc.waitAgain
        split <;> trivial
  | leasing claimed attempt current now =>
    simp only [Pc.next, Pc.effect, Store.compareAndSet]
    split
    · refine ⟨fun _ _ => ⟨_, rfl, rfl, rfl⟩, fun hrows hlate => ?_⟩
      exact absurd hrows (by simpa using hlate)
    · unfold Pc.waitAgain
      split <;> trivial
  | finalising claimed index attempt =>
    simp only [Pc.next, hclaim, Pc.effect]
    cases claimPayload key claim with
    | error e => trivial
    | ok payload =>
      dsimp only
      split
      · trivial
      split
      · trivial
      · exact hseen
  | releasing attempt error =>
    simp only [Pc.next, hclaim, Pc.effect]
    cases claimPayload key claim with
    | error e => trivial
    | ok payload =>
      dsimp only
      split
      · next hown => exact ⟨hseen, hown⟩
      · trivial
  | searching | claiming | reading | waiting | creating | confirming | committing | unleasing =>
    grind [Pc.next, Pc.found, Pc.waitAgain, Pc.validated, Pc.Fenced]
  | returned | raised | stopped => trivial

theorem Pc.Early.next_fenced (h : pc.Early rows) : (pc.next key c r store).Fenced store' c := by
  cases pc with
  | searching | claiming | raised | stopped =>
    grind [Pc.next, Pc.validated, Pc.Fenced]
  | reading | waiting | checking | leasing | creating | confirming | finalising | committing
  | releasing | unleasing | returned => exact absurd h id

/-- **No request adds a second row.** -/
theorem length_effect (hmover : mover.Fenced store c) (hallowed : mover.Allowed store)
    (hlength : store.rows.length ≤ 1) : (mover.effect key c store).rows.length ≤ 1 := by
  have hset : ∀ next expected, (store.compareAndSet next expected).rows.length ≤ 1 := by
    intro next expected
    rcases compareAndSet_cases (s := store) next expected with heq | ⟨-, heq⟩ <;> rw [heq]
    · exact hlength
    · exact hlength
  cases mover with
  | claiming payload =>
    simp only [Pc.effect, Store.createClaim]
    split <;> exact hlength
  | leasing | committing | unleasing => exact hset _ _
  | creating claimed told late =>
    obtain ⟨hlease, hbefore⟩ := hallowed claimed told late rfl
    by_cases hthere : ∃ row ∈ store.rows, row.index = store.writeIndex
    · rw [Pc.effect, createRow_of_mem hthere]
      exact hlength
    · obtain rfl := hbefore.resolve_right hthere
      simp [Pc.effect, Store.createRow, hmover.rows_eq_nil hlease]
  | searching | reading | waiting | checking | confirming | finalising | releasing | returned
  | raised | stopped => exact hlength

theorem Single.step (h : Single s) (hknown : Known key s) (hmove : Moved key s e t)
    (hlease : OwnLease s e) (hbefore : ToldBefore s e) : Single t := by
  cases hmove with
  | tick millis =>
    exact ⟨h.length, fun d v hv => (h.writers d v hv).later rfl rfl (Nat.le_add_right _ _)⟩
  | rollover => exact ⟨h.length, fun d v hv => (h.writers d v hv).later rfl rfl le_rfl⟩
  | call r hnone =>
    refine ⟨h.length, fun d v hv => ?_⟩
    rcases writer_update hv with ⟨rfl, rfl⟩ | hv
    · trivial
    · exact h.writers d v hv
  | idle pc hw hended hlost =>
    refine ⟨h.length, fun d v hv => ?_⟩
    rcases writer_update hv with ⟨rfl, rfl⟩ | hv
    · obtain ⟨hactive, rfl | rfl | ⟨-, outcome, houtcome, he⟩⟩ := hended
      · exact failed_fenced hactive .backend
      · trivial
      · exact absurd (hlost d outcome he) houtcome
    · exact h.writers d v hv
  | @carried c w outcome pc hw houtcome hended =>
    have hmover := h.writers c w hw
    have hallowed : w.pc.Allowed s.store := fun claimed told late hpc =>
      ⟨hlease c outcome w claimed told late rfl houtcome hw hpc,
        hbefore c outcome w claimed told late rfl houtcome hw hpc⟩
    refine ⟨length_effect hmover hallowed h.length, fun d v hv => ?_⟩
    rcases hknown with hunclaimed | ⟨ms, hclaimed⟩
    · rcases writer_update hv with ⟨rfl, rfl⟩ | hv
      · obtain ⟨hactive, rfl | rfl | ⟨rfl, -⟩⟩ := hended
        · exact failed_fenced hactive .backend
        · trivial
        · exact (hunclaimed.writers d w hw).next_fenced
      · exact (hunclaimed.writers d v hv).fenced
    · obtain ⟨claim, hfor⟩ := hclaimed.store
      by_cases hd : d = c
      · subst hd
        obtain ⟨-, rfl⟩ : d = d ∧ v = { w with pc := pc } := by
          simpa [Table.setPc, eq_comm] using hv
        obtain ⟨hactive, rfl | rfl | ⟨rfl, -⟩⟩ := hended
        · exact failed_fenced hactive .backend
        · trivial
        · exact hmover.next hfor.claim_eq
      · rcases writer_update hv with ⟨hdc, -⟩ | hv
        · exact absurd hdc hd
        · exact (h.writers d v hv).other hd hmover (hclaimed.writers c w hw) hfor.claim_eq hallowed

end Steps

section Runs

variable {key : Key} {s : Table}

theorem single_of_reaches
    (h : (ledgerMachine key).Reaches (fun s e => OwnLease s e ∧ ToldBefore s e) s) : Single s := by
  have hboth : Known key s ∧ Single s := by
    refine Machine.invariant (I := fun s => Known key s ∧ Single s) ?_ ?_ h
    · intro s hfresh
      exact ⟨known_of_fresh hfresh, hfresh.rows, fun c w hw => by simp [hfresh.writer c] at hw⟩
    · intro s e t hs hcond hstep
      have hmove := moved_of_step hstep
      exact ⟨(hs.1.step hmove).1, hs.2.step hs.1 hmove hcond.1 hcond.2⟩
  exact hboth.2

/-- **A keyed append is made once**, in every run in which nobody creates after its lease or where
it was told of its lease after there was a row: there is one row at most, in whichever backing
index, and its payload is that of the claim, which no step changes. -/
theorem appended_once
    (h : (ledgerMachine key).Reaches (fun s e => OwnLease s e ∧ ToldBefore s e) s) :
    s.store.rows.length ≤ 1 ∧
    (∀ claim, s.store.claim = some claim → ∃ ms, claimPayload key claim = .ok ms ∧
      ∀ row ∈ s.store.rows, canonicalJson row.payload = canonicalJson ms) ∧
    ∀ es t, (ledgerMachine key).run s es = some t → Kept s.store t.store := by
  have hknown := known_of_reaches h
  refine ⟨(single_of_reaches h).length, fun claim hclaim => ?_, fun es t => kept_of_run hknown⟩
  rcases hknown with hunclaimed | ⟨ms, hclaimed⟩
  · exact absurd (hclaim.symm.trans hunclaimed.claim) (by simp)
  · obtain ⟨claim', hfor⟩ := hclaimed.store
    cases hfor.claim_eq.symm.trans hclaim
    refine ⟨sorted ms, hfor.sound.claimPayload hfor.valid, fun row hrow => ?_⟩
    exact (hfor.rows row hrow).trans (canonicalJson_sorted ms).symm

def creates (s : Table) (p : Nat → Bool → Bool) : Event → Bool
  | .request c outcome =>
    outcome = .lost || match (s.writer c).map Writer.pc with
      | some (.creating _ told late) => p told late
      | _ => true
  | _ => true

theorem creates_spec {p : Nat → Bool → Bool} {e : Event} (h : creates s p e = true) {c : Nat}
    {outcome : Outcome} {w : Writer} {claimed : Members} {told : Nat} {late : Bool}
    (he : e = .request c outcome) (houtcome : outcome ≠ .lost) (hw : s.writer c = some w)
    (hpc : w.pc = .creating claimed told late) : p told late = true := by
  subst he
  simpa [creates, houtcome, hw, hpc] using h

set_option maxRecDepth 20000 in
/-- Two calls claim the row; one appends it, the alias rolls over, and the other finds it there. -/
theorem appended_by_two : ∃ s,
    (ledgerMachine eventKey).Reaches (fun s e => OwnLease s e ∧ ToldBefore s e) s ∧
    ((s.writer 0).map Writer.pc = some .returned ∧ (s.writer 1).map Writer.pc = some .returned) ∧
    s.store.rows ≠ [] ∧ s.store.rows.length ≤ 1 := by
  have hcond : ∀ s e, creates s (fun told late => s.store.now < told && !late) e = true →
      OwnLease s e ∧ ToldBefore s e := by
    intro s e hcreates
    refine ⟨fun c outcome w claimed told late he houtcome hw hpc => ?_,
      fun c outcome w claimed told late he houtcome hw hpc => .inl ?_⟩
    · exact of_decide_eq_true (Bool.and_eq_true_iff.mp (creates_spec hcreates he houtcome hw hpc)).1
    · simpa using (Bool.and_eq_true_iff.mp (creates_spec hcreates he houtcome hw hpc)).2
  have hrun : ((ledgerMachine eventKey).runChecked
      (fun s e => creates s (fun told late => s.store.now < told && !late) e) emptyLedger
      ([.call 0 emptyRequest, .call 1 emptyRequest] ++
        [0, 1, 0, 1, 0, 0, 0, 0, 0, 0].map (.request · .answered) ++ [.rollover] ++
        [1, 1, 1].map (.request · .answered))).any
        (fun s => decide ((s.writer 0).map Writer.pc = some .returned ∧
          (s.writer 1).map Writer.pc = some .returned) && !s.store.rows.isEmpty) = true := by decide
  obtain ⟨s, hreaches, hend⟩ := Machine.reaches_of_runChecked hcond fresh_emptyLedger hrun
  rw [Bool.and_eq_true, decide_eq_true_eq] at hend
  exact ⟨s, hreaches, hend.1, by simpa using hend.2, (appended_once hreaches).1⟩

set_option maxRecDepth 20000 in
/-- Call 1 searches, call 0 appends the row and settles the claim, the alias rolls over, and call 1
finds the lease free: both create within their leases, in two backing indices. -/
theorem appended_twice : ∃ s, (ledgerMachine eventKey).Reaches OwnLease s ∧
    s.store.rows.length = 2 := by
  have hcond : ∀ s e, creates s (fun told _ => s.store.now < told) e = true → OwnLease s e :=
    fun s e hcreates c outcome w claimed told late he houtcome hw hpc =>
      of_decide_eq_true (creates_spec hcreates he houtcome hw hpc)
  have hrun : ((ledgerMachine eventKey).runChecked
      (fun s e => creates s (fun told _ => s.store.now < told) e) emptyLedger
      ([.call 0 emptyRequest, .call 1 emptyRequest] ++
        [0, 0, 1, 1, 1, 0, 1, 0, 0, 0, 0, 0].map (.request · .answered) ++ [.rollover] ++
        [1, 1, 1].map (.request · .answered))).any
        (fun s => s.store.rows.length = 2) = true := by decide
  obtain ⟨s, hreaches, hrows⟩ := Machine.reaches_of_runChecked hcond fresh_emptyLedger hrun
  exact ⟨s, hreaches, of_decide_eq_true hrows⟩

end Runs

end AgenticKibana.Ledger
