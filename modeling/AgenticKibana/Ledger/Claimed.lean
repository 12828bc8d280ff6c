import AgenticKibana.Ledger.Protocol

/-!
# What a claim fixes

Before the claim exists nothing is written, and every payload on its way into one is that of the row
that is older than claims, if there is one.  From the claim on its payload never changes, every row
holds it, and a call beyond the validation was validated against it.
-/

namespace AgenticKibana.Ledger

open AgenticKibana.Library List

def Request.Validated (r : Request) (ms : Members) : Prop :=
  validateRetry r.reject r.metadata r.payload.members (sorted ms) = .ok ()

def Pc.Early (rows : List Row) : Pc → Prop
  | .claiming ms => (Json.obj ms).valid = true ∧ ∀ row ∈ rows, row.payload = ms
  | .searching | .raised _ | .stopped => True
  | _ => False

/-- A call where the claim is one for `ms`. -/
def Pc.Holds (key : Key) (ms : Members) (rows : List Row) (r : Request) : Pc → Prop
  | .waiting claimed _ | .checking claimed _ | .creating claimed _ _ | .confirming claimed =>
    claimed = sorted ms ∧ r.Validated ms
  | .leasing claimed _ current _ => claimed = sorted ms ∧ r.Validated ms ∧ current.Sound key ms
  | .finalising claimed index _ =>
    claimed = sorted ms ∧ r.Validated ms ∧ ∃ row ∈ rows, row.index = index
  | .committing claimed index _ current =>
    claimed = sorted ms ∧ r.Validated ms ∧ (∃ row ∈ rows, row.index = index) ∧
      current.Sound key ms
  | .releasing _ _ => r.Validated ms
  | .unleasing _ current _ => r.Validated ms ∧ current.Sound key ms
  | .returned => r.Validated ms ∧ rows ≠ []
  | .searching | .claiming _ | .reading | .raised _ | .stopped => True

structure Unclaimed (s : Table) : Prop where
  claim : s.store.claim = none
  length : s.store.rows.length ≤ 1
  valid : ∀ row ∈ s.store.rows, (Json.obj row.payload).valid = true
  writers : ∀ c w, s.writer c = some w → w.pc.Early s.store.rows

/-- The store holds a claim for `ms`, and rows with its payload. -/
structure Store.For (key : Key) (ms : Members) (s : Store) (claim : Claim) : Prop where
  claim_eq : s.claim = some claim
  valid : (Json.obj ms).valid = true
  sound : claim.Sound key ms
  rows : ∀ row ∈ s.rows, canonicalJson row.payload = canonicalJson ms

/-- The key is claimed for `ms`. -/
structure Claimed (key : Key) (ms : Members) (s : Table) : Prop where
  store : ∃ claim, s.store.For key ms claim
  writers : ∀ c w, s.writer c = some w → w.pc.Holds key ms s.store.rows w.request

section Steps

variable {key : Key} {ms : Members} {rows rows' : List Row} {r : Request} {pc : Pc} {s : Store}
  {claim : Claim} {c : Nat}

theorem Pc.Holds.mono (h : pc.Holds key ms rows r) (hrows : rows <+: rows') :
    pc.Holds key ms rows' r := by
  have hmem : ∀ {index}, (∃ row ∈ rows, row.index = index) → ∃ row ∈ rows', row.index = index := by
    rintro index ⟨row, hrow, hindex⟩
    exact ⟨row, hrows.subset hrow, hindex⟩
  cases pc with
  | finalising claimed index attempt => exact ⟨h.1, h.2.1, hmem h.2.2⟩
  | committing claimed index attempt current => exact ⟨h.1, h.2.1, hmem h.2.2.1, h.2.2.2⟩
  | returned => exact ⟨h.1, fun hnil => h.2 (prefix_nil.mp (hnil ▸ hrows))⟩
  | searching | claiming | reading | waiting | checking | leasing | creating | confirming
  | releasing | unleasing | raised | stopped => exact h

theorem Pc.Early.holds (h : pc.Early rows) : pc.Holds key ms rows' r := by
  cases pc with
  | searching | claiming | raised | stopped => trivial
  | reading | waiting | checking | leasing | creating | confirming | finalising | committing
  | releasing | unleasing | returned => exact absurd h id

theorem Pc.failed_holds (error : LedgerError) (h : pc.Holds key ms rows r) :
    (pc.failed error).Holds key ms rows r := by
  cases pc with
  | returned => exact h
  | waiting | checking | creating | confirming => exact h.2
  | leasing | finalising | committing => exact h.2.1
  | searching | claiming | reading | releasing | unleasing | raised | stopped => trivial

variable {row : Row}

theorem find_mem (h : s.find = .ok (some row)) : row ∈ s.rows := by
  unfold Store.find at h
  cases hrows : s.rows with
  | nil => simp [hrows] at h
  | cons first more =>
    cases more with
    | nil =>
      simp only [hrows, Except.ok.injEq, Option.some.injEq] at h
      simp [h]
    | cons second more => simp [hrows] at h

theorem compareAndSet_cases (next : Claim) (expected : Nat) :
    s.compareAndSet next expected = s ∨
      (s.revision = expected ∧ s.compareAndSet next expected = { s with claim := some next }) := by
  unfold Store.compareAndSet
  by_cases h : s.revision = expected
  · exact .inr ⟨h, if_pos h⟩
  · exact .inl (if_neg h)

theorem Store.For.set (h : s.For key ms claim) {next : Claim} (hnext : next.Sound key ms)
    (expected : Nat) : ∃ claim', (s.compareAndSet next expected).For key ms claim' ∧
      (s.compareAndSet next expected).rows = s.rows := by
  rcases compareAndSet_cases (s := s) next expected with heq | ⟨-, heq⟩
  · rw [heq]
    exact ⟨claim, h, rfl⟩
  · rw [heq]
    exact ⟨next, ⟨rfl, h.valid, hnext, h.rows⟩, rfl⟩

/-- **What a request does to the store of a claimed key**: the claim stays one for its payload, and
the rows are only added to. -/
theorem Store.For.effect (h : s.For key ms claim) (hpc : pc.Holds key ms s.rows r) :
    ∃ claim', (pc.effect key c s).For key ms claim' ∧ s.rows <+: (pc.effect key c s).rows := by
  have hset : ∀ next expected, next.Sound key ms →
      ∃ claim', (s.compareAndSet next expected).For key ms claim' ∧
        s.rows <+: (s.compareAndSet next expected).rows := by
    intro next expected hnext
    obtain ⟨claim', hfor, hrows⟩ := h.set hnext expected
    exact ⟨claim', hfor, hrows ▸ prefix_rfl⟩
  cases pc with
  | claiming payload =>
    have hsome : s.createClaim (newClaim key payload c s.now) = s :=
      if_pos (by rw [h.claim_eq]; rfl)
    simp only [Pc.effect, hsome]
    exact ⟨claim, h, prefix_rfl⟩
  | leasing claimed attempt current now => exact hset _ _ (hpc.2.2.leased c now)
  | committing claimed index attempt current => exact hset _ _ (hpc.2.2.2.committed index)
  | unleasing attempt current error => exact hset _ _ hpc.2.released
  | creating claimed told late =>
    simp only [Pc.effect, Store.createRow]
    split
    · exact ⟨claim, h, prefix_rfl⟩
    · refine ⟨claim, ⟨h.claim_eq, h.valid, h.sound, ?_⟩, prefix_append _ _⟩
      intro row hrow
      rcases mem_append.mp hrow with hold | hnew
      · exact h.rows row hold
      · cases mem_singleton.mp hnew
        rw [hpc.1, canonicalJson_sorted]
  | searching | reading | waiting | checking | confirming | finalising | releasing | returned
  | raised | stopped => exact ⟨claim, h, prefix_rfl⟩

theorem validated_holds (h : s.For key ms claim) :
    (Pc.validated key r claim).Holds key ms rows r := by
  simp only [Pc.validated, h.sound.claimPayload h.valid]
  cases hretry : validateRetry r.reject r.metadata r.payload.members (sorted ms) with
  | error e => trivial
  | ok u => exact ⟨rfl, hretry⟩

variable {claimed : Members}

theorem found_holds (hclaimed : claimed = sorted ms) (hvalid : r.Validated ms) (hrow : row ∈ rows) :
    (Pc.found claimed row).Holds key ms rows r := by
  unfold Pc.found
  split
  · exact ⟨hclaimed, hvalid, row, hrow, rfl⟩
  · exact hvalid

theorem waitAgain_holds (attempt : Nat) (hclaimed : claimed = sorted ms) (hvalid : r.Validated ms) :
    (Pc.waitAgain claimed attempt).Holds key ms rows r := by
  unfold Pc.waitAgain
  split
  · exact ⟨hclaimed, hvalid⟩
  · exact hvalid

/-- **Where a call stands once its request is answered.** -/
theorem Pc.Holds.next (hpc : pc.Holds key ms s.rows r) (h : s.For key ms claim) :
    (pc.next key c r s).Holds key ms s.rows r := by
  have hpayload := h.sound.claimPayload h.valid
  cases pc with
  | searching =>
    simp only [Pc.next]
    cases s.find with
    | error e => trivial
    | ok found =>
      cases found with
      | none => trivial
      | some row =>
        dsimp only
        cases validateRetry r.reject r.metadata r.payload.members row.payload <;> trivial
  | claiming payload =>
    simp only [Pc.next, h.claim_eq, Option.isSome_some, if_true]
    trivial
  | reading =>
    simp only [Pc.next, h.claim_eq]
    exact validated_holds h
  | waiting claimed attempt =>
    simp only [Pc.next]
    cases hfind : s.find with
    | error e => exact hpc.2
    | ok found =>
      cases found with
      | none => exact hpc
      | some row => exact found_holds hpc.1 hpc.2 (find_mem hfind)
  | checking claimed attempt =>
    simp only [Pc.next, h.claim_eq, hpayload]
    split
    · exact hpc.2
    split
    · exact hpc
    split
    · exact ⟨hpc.1, hpc.2, h.sound⟩
    · exact waitAgain_holds attempt hpc.1 hpc.2
  | leasing claimed attempt current now =>
    simp only [Pc.next]
    split
    · exact ⟨hpc.1, hpc.2.1⟩
    · exact waitAgain_holds attempt hpc.1 hpc.2.1
  | creating claimed told late => exact hpc
  | confirming claimed =>
    simp only [Pc.next]
    cases hfind : s.find with
    | error e => exact hpc.2
    | ok found =>
      cases found with
      | none => exact hpc.2
      | some row => exact found_holds hpc.1 hpc.2 (find_mem hfind)
  | finalising claimed index attempt =>
    simp only [Pc.next, h.claim_eq, hpayload]
    split
    · exact hpc.2.1
    split
    · obtain ⟨row, hrow, -⟩ := hpc.2.2
      exact ⟨hpc.2.1, ne_nil_of_mem hrow⟩
    · exact ⟨hpc.1, hpc.2.1, hpc.2.2, h.sound⟩
  | committing claimed index attempt current =>
    simp only [Pc.next]
    split
    · obtain ⟨row, hrow, -⟩ := hpc.2.2.1
      exact ⟨hpc.2.1, ne_nil_of_mem hrow⟩
    split
    · exact ⟨hpc.1, hpc.2.1, hpc.2.2.1⟩
    · exact hpc.2.1
  | releasing attempt error =>
    simp only [Pc.next, h.claim_eq, hpayload]
    split
    · exact ⟨hpc, h.sound⟩
    · trivial
  | unleasing attempt current error =>
    simp only [Pc.next]
    split
    · trivial
    split
    · exact hpc.1
    · trivial
  | returned | raised | stopped => exact hpc

end Steps

/-! ### One step of the ledger -/

/-- Where a call stands once its request has ended: it failed, the call stopped, or it was carried
out and answered. -/
def Pc.Ended (key : Key) (s : Store) (e : Event) (c : Nat) (w : Writer) (pc : Pc) : Prop :=
  w.pc.active = true ∧ (pc = w.pc.failed .backend ∨ pc = .stopped ∨
    (pc = w.pc.next key c w.request s ∧ ∃ outcome, outcome ≠ .lost ∧ e = .request c outcome))

inductive Moved (key : Key) (s : Table) : Event → Table → Prop where
  | tick (millis : Nat) : Moved key s (.tick millis)
      { s with store := { s.store with now := s.store.now + millis } }
  | rollover : Moved key s .rollover
      { s with store := { s.store with writeIndex := s.store.writeIndex + 1 } }
  | call {c : Nat} (r : Request) : s.writer c = none →
      Moved key s (.call c r)
        { s with writer := Function.update s.writer c (some ⟨r, .searching⟩) }
  | idle {c : Nat} {w : Writer} {e : Event} (pc : Pc) : s.writer c = some w →
      pc.Ended key s.store e c w → (∀ d outcome, e = .request d outcome → outcome = .lost) →
      Moved key s e (s.setPc c w pc)
  | carried {c : Nat} {w : Writer} {outcome : Outcome} (pc : Pc) : s.writer c = some w →
      outcome ≠ .lost → pc.Ended key s.store (.request c outcome) c w →
      Moved key s (.request c outcome)
        (Table.setPc { s with store := w.pc.effect key c s.store } c w pc)

section Moves

variable {key : Key} {ms : Members} {s t : Table} {e : Event}

theorem moved_of_step (h : Table.step key s e = some t) : Moved key s e t := by
  cases e with
  | tick millis =>
    cases h
    exact .tick millis
  | rollover =>
    cases h
    exact .rollover
  | call c r =>
    cases hw : s.writer c with
    | some w => simp [Table.step, hw] at h
    | none =>
      simp only [Table.step, hw, Option.some.injEq] at h
      exact h ▸ .call r hw
  | stop c =>
    cases hw : s.writer c with
    | none => simp [Table.step, hw] at h
    | some w =>
      by_cases hactive : w.pc.active = true
      · simp only [Table.step, hw, hactive, if_true, Option.some.injEq] at h
        exact h ▸ .idle .stopped hw ⟨hactive, .inr (.inl rfl)⟩ (by simp)
      · simp [Table.step, hw, hactive] at h
  | request c outcome =>
    cases hw : s.writer c with
    | none => simp [Table.step, hw] at h
    | some w =>
      by_cases hactive : w.pc.active = true
      · simp only [Table.step, hw, hactive, if_true] at h
        cases outcome with
        | answered =>
          cases h
          exact .carried _ hw (by decide) ⟨hactive, .inr (.inr ⟨rfl, _, by decide, rfl⟩)⟩
        | lost =>
          cases h
          exact .idle _ hw ⟨hactive, .inl rfl⟩ (by simp)
        | unseen =>
          cases h
          exact .carried _ hw (by decide) ⟨hactive, .inl rfl⟩
        | last =>
          cases h
          exact .carried _ hw (by decide) ⟨hactive, .inr (.inl rfl)⟩
      · simp [Table.step, hw, hactive] at h

theorem writer_update {f : Nat → Option Writer} {c d : Nat} {w v : Writer}
    (h : Function.update f c (some w) d = some v) : (d = c ∧ v = w) ∨ f d = some v := by
  by_cases hd : d = c
  · subst hd
    rw [Function.update_self] at h
    exact .inl ⟨rfl, (Option.some.inj h).symm⟩
  · rw [Function.update_of_ne hd] at h
    exact .inr h

/-- What holds of the writers before a step, of a new one and of one whose request has ended, holds
of all after it. -/
theorem Moved.all {P : Nat → Writer → Prop} (h : Moved key s e t)
    (hold : ∀ d v, s.writer d = some v → P d v) (hcall : ∀ d r, P d ⟨r, .searching⟩)
    (hended : ∀ d w pc, s.writer d = some w → pc.Ended key s.store e d w → P d ⟨w.request, pc⟩) :
    ∀ d v, t.writer d = some v → P d v := by
  intro d v hv
  cases h with
  | tick | rollover => exact hold d v hv
  | call r hnone =>
    rcases writer_update hv with ⟨rfl, rfl⟩ | hv
    · exact hcall d r
    · exact hold d v hv
  | idle pc hw hpc _ | carried pc hw _ hpc =>
    rcases writer_update hv with ⟨rfl, rfl⟩ | hv
    · exact hended d _ pc hw hpc
    · exact hold d v hv

theorem Moved.store (h : Moved key s e t) :
    (t.store.claim = s.store.claim ∧ t.store.rows = s.store.rows ∧ s.store.now ≤ t.store.now) ∨
      ∃ c w outcome, e = .request c outcome ∧ outcome ≠ .lost ∧ s.writer c = some w ∧
        t.store = w.pc.effect key c s.store := by
  cases h with
  | tick millis => exact .inl ⟨rfl, rfl, Nat.le_add_right _ _⟩
  | rollover | call | idle => exact .inl ⟨rfl, rfl, le_rfl⟩
  | carried pc hw houtcome _ => exact .inr ⟨_, _, _, rfl, houtcome, hw, rfl⟩

/-- **A claimed key stays claimed for its payload**, and its rows are only added to. -/
theorem Claimed.step (h : Claimed key ms s) (hmove : Moved key s e t) :
    Claimed key ms t ∧ s.store.rows <+: t.store.rows := by
  obtain ⟨claim, hfor⟩ := h.store
  have hstore : (∃ claim', t.store.For key ms claim') ∧ s.store.rows <+: t.store.rows := by
    rcases hmove.store with ⟨hclaim, hrows, -⟩ | ⟨c, w, outcome, -, -, hw, heq⟩
    · exact ⟨⟨claim, hclaim.trans hfor.claim_eq, hfor.valid, hfor.sound, hrows ▸ hfor.rows⟩,
        hrows ▸ prefix_rfl⟩
    · obtain ⟨claim', hfor', hgrown⟩ := hfor.effect (c := c) (h.writers c w hw)
      rw [heq]
      exact ⟨⟨claim', hfor'⟩, hgrown⟩
  refine ⟨⟨hstore.1, ?_⟩, hstore.2⟩
  refine hmove.all (P := fun _ v => v.pc.Holds key ms t.store.rows v.request) ?_ ?_ ?_
  · exact fun d v hv => (h.writers d v hv).mono hstore.2
  · exact fun _ _ => trivial
  · rintro d w pc hw ⟨-, hpc⟩
    have hholds := h.writers d w hw
    apply Pc.Holds.mono _ hstore.2
    rcases hpc with rfl | rfl | ⟨rfl, -⟩
    · exact w.pc.failed_holds .backend hholds
    · trivial
    · exact hholds.next hfor

theorem Pc.Early.failed {pc : Pc} {rows : List Row} (h : pc.Early rows) (error : LedgerError) :
    (pc.failed error).Early rows := by
  cases pc with
  | searching | claiming | raised | stopped => trivial
  | reading | waiting | checking | leasing | creating | confirming | finalising | committing
  | releasing | unleasing | returned => exact absurd h id

theorem Unclaimed.searched (h : Unclaimed s) (key : Key) (c : Nat) (r : Request) :
    (Pc.next key c r s.store .searching).Early s.store.rows := by
  simp only [Pc.next]
  have hfind : s.store.find = .ok s.store.rows.head? := by
    have hlength := h.length
    unfold Store.find
    cases hrows : s.store.rows with
    | nil => rfl
    | cons row more =>
      cases more with
      | nil => rfl
      | cons second more => simp [hrows] at hlength
  rw [hfind]
  cases hrows : s.store.rows with
  | nil => exact ⟨r.payload.valid, by simp⟩
  | cons row more =>
    simp only [head?_cons]
    cases validateRetry r.reject r.metadata r.payload.members row.payload with
    | error e => trivial
    | ok u =>
      refine ⟨h.valid row (by simp [hrows]), ?_⟩
      have hlength := h.length
      rw [hrows] at hlength
      cases more with
      | nil => simp
      | cons second more => simp at hlength

/-- **The step that makes the claim**: it is for the payload of the row, if there is one. -/
theorem Unclaimed.claimed (h : Unclaimed s) (hmove : Moved key s e t) {c : Nat} {w : Writer}
    {outcome : Outcome} (he : e = .request c outcome) (hw : s.writer c = some w)
    (hpc : w.pc = .claiming ms) (hstore : t.store = w.pc.effect key c s.store) :
    Claimed key ms t ∧ t.store.rows = s.store.rows := by
  have hearly := h.writers c w hw
  rw [hpc] at hearly
  have heq : t.store =
      { s.store with claim := some (newClaim key ms c s.store.now) } := by
    rw [hstore, hpc]
    exact if_neg (by simp [h.claim])
  have hfor : Store.For key ms t.store (newClaim key ms c s.store.now) := by
    refine ⟨by rw [heq], hearly.1, Claim.sound_newClaim key ms c s.store.now, fun row hrow => ?_⟩
    rw [heq] at hrow
    rw [hearly.2 row hrow]
  refine ⟨⟨⟨_, hfor⟩, ?_⟩, by rw [heq]⟩
  refine hmove.all (P := fun _ v => v.pc.Holds key ms t.store.rows v.request) ?_ ?_ ?_
  · exact fun d v hv => (h.writers d v hv).holds
  · exact fun _ _ => trivial
  · rintro d v pc hv ⟨-, hended⟩
    rcases hended with rfl | rfl | ⟨rfl, outcome', -, he'⟩
    · exact v.pc.failed_holds .backend (h.writers d v hv).holds
    · trivial
    · obtain ⟨rfl, -⟩ : c = d ∧ outcome = outcome' := by simpa using he.symm.trans he'
      cases hw.symm.trans hv
      simp only [hpc, Pc.next, h.claim, Option.isSome_none, Bool.false_eq_true, if_false]
      exact validated_holds hfor

theorem Unclaimed.step (h : Unclaimed s) (hmove : Moved key s e t) :
    (Unclaimed t ∨ ∃ ms, Claimed key ms t) ∧ t.store.rows = s.store.rows := by
  by_cases hclaiming : ∃ c w outcome ms, e = .request c outcome ∧ outcome ≠ .lost ∧
      s.writer c = some w ∧ w.pc = .claiming ms
  · obtain ⟨c, w, outcome, ms, he, houtcome, hw, hpc⟩ := hclaiming
    have hstore : t.store = w.pc.effect key c s.store := by
      cases hmove with
      | tick | rollover | call => exact absurd he (by simp)
      | idle pc _ _ hlost => exact absurd (hlost c outcome he) houtcome
      | carried pc hw' _ _ =>
        obtain ⟨rfl, -⟩ : _ ∧ _ := by simpa using he
        cases hw.symm.trans hw'
        rfl
    obtain ⟨hclaimed, hrows⟩ := h.claimed hmove he hw hpc hstore
    exact ⟨.inr ⟨ms, hclaimed⟩, hrows⟩
  · have hstore : t.store.claim = none ∧ t.store.rows = s.store.rows := by
      rcases hmove.store with ⟨hclaim, hrows, -⟩ | ⟨c, w, outcome, he, houtcome, hw, heq⟩
      · exact ⟨hclaim.trans h.claim, hrows⟩
      · have hearly := h.writers c w hw
        rw [heq]
        cases hpc : w.pc with
        | claiming ms => exact absurd ⟨c, w, outcome, ms, he, houtcome, hw, hpc⟩ hclaiming
        | searching | raised | stopped => exact ⟨h.claim, rfl⟩
        | reading | waiting | checking | leasing | creating | confirming | finalising | committing
        | releasing | unleasing | returned =>
          rw [hpc] at hearly
          exact absurd hearly id
    refine ⟨.inl ⟨hstore.1, hstore.2 ▸ h.length, hstore.2 ▸ h.valid, ?_⟩, hstore.2⟩
    rw [hstore.2]
    refine hmove.all (P := fun _ v => v.pc.Early s.store.rows) h.writers (fun _ _ => trivial) ?_
    rintro d v pc hv ⟨hactive, hended⟩
    have hearly := h.writers d v hv
    rcases hended with rfl | rfl | ⟨rfl, outcome, houtcome, he⟩
    · exact hearly.failed .backend
    · trivial
    · cases hpc : v.pc with
      | searching => exact h.searched key d v.request
      | claiming ms => exact absurd ⟨d, v, outcome, ms, he, houtcome, hv, hpc⟩ hclaiming
      | raised | stopped =>
        simp [hpc, Pc.active] at hactive
      | reading | waiting | checking | leasing | creating | confirming | finalising | committing
      | releasing | unleasing | returned =>
        rw [hpc] at hearly
        exact absurd hearly id

end Moves

end AgenticKibana.Ledger
