import AgenticKibana.Users.Requests

/-!
# A second factor is used once

`mfa_verify` checks a code against the record it loaded and saves that record with the
factor spent.  The save replaces whatever record is stored by then, so a factor is used
once as long as every save meets the second factor it was checked against and takes
effect before the login is answered.
-/

namespace AgenticKibana.Users

open AgenticKibana.Library AgenticKibana.Stores List

variable {site : Site} {username : String}

def row {W : Type} (site : Site) (username : String) (s : State (List Entry) W) : Option User :=
  find site (users s.doc.value) username

def spent (x : RequestStep) : Option (Nat × Method) :=
  match x with
  | ⟨τ, .putIf w _ _ _, _, s, t⟩ =>
    if t.doc.rev = s.doc.rev then none
    else (w.origin.bind fun origin => origin.edit.method?).map fun m => (τ, m)
  | _ => none

def passed (x : RequestStep) : Option Method :=
  match x with
  | ⟨_, .other (.loginOk _ m), _, _, _⟩ => some m
  | _ => none

def Method.step? : Method → Option Nat
  | .totp step => some step
  | .recovery _ => none

def Method.code? : Method → Option String
  | .totp _ => none
  | .recovery code => some code

def spentFactors (trace : List RequestStep) : List (Nat × Method) := trace.filterMap spent

def spentSteps (trace : List RequestStep) : List Nat :=
  (spentFactors trace).filterMap fun p => p.2.step?

def spentCodes (trace : List RequestStep) : List String :=
  (spentFactors trace).filterMap fun p => p.2.code?

def LoginsOf (site : Site) (username : String) (move : RequestMove) : Prop :=
  match move with
  | .start (.mfaVerify subject _) => ∀ name, subject = some name →
      site.norm name = site.norm username
  | .start _ => False
  | .step .. => True

/-- A save of a login replaces a record with the second factor it was checked against, and a
login is answered after its save took effect. -/
def FactorKept (site : Site) (c : Requests) (move : RequestMove) : Prop :=
  match Service.action c move with
  | some (_, .putIf ⟨_, some ⟨some user, _⟩⟩ _ current _) =>
    c.state.doc.rev = revOf current →
      (row site user.username c.state).map User.mfa = some user.mfa
  | some (τ, .other (.loginOk _ method)) => (τ, method) ∈ spentFactors c.trace
  | _ => True

def Enrolled (site : Site) (username : String) (s : Shared) : Prop :=
  ∀ user, row site username s = some user → ∀ code,
    (user.mfa.recoveryHashes.countP (site.verifyPassword code)) ≤ 1

variable {e : Moment} {w : Write} {c : Requests} {p q : Nat × Method} {value : List Entry}

theorem users_apply {entries : List Entry} (h : apply site w e entries = .ok value) :
    w.change.edit site e.now (users entries) = .ok (users value) := by
  unfold apply at h
  cases hedit : w.change.edit site e.now (users entries) with
  | error failure => rw [hedit] at h; cases h
  | ok us =>
    rw [hedit] at h
    cases h
    rw [users_map_valid]

variable {x : RequestStep} {current : Option (Document (List Entry))}

/-- The record of the named user after a write that took effect: the change of the stored record,
or of none where the read had failed. -/
theorem row_of_written (h : Written [] (apply site) x) (hact : x.act = .putIf w e current value)
    (hrev : x.after.doc.rev ≠ x.before.doc.rev) (username : String) :
    ∃ base, (base = row site username x.before ∨ base = none) ∧
      row site username x.after = if site.norm username = site.norm w.change.username
        then w.change.row e.now base else base := by
  rcases h with hdoc | ⟨w', e', current', value', hact', happly, -⟩ | ⟨w', e', value', hact',
    happly, -, -⟩
  · exact absurd (congrArg Document.rev hdoc) hrev
  · rw [hact] at hact'
    cases hact'
    exact ⟨_, .inl rfl, find_edit (users_apply happly) username⟩
  · rw [hact] at hact'
    cases hact'
    exact ⟨none, .inr rfl, find_edit (users_apply happly) username⟩

variable {name : String}

theorem row_congr (h : site.norm name = site.norm username) (s : Shared) :
    row site name s = row site username s := by
  unfold row find
  rw [h]

theorem written_of_requests {start : Shared → Prop} {G : Requests → RequestMove → Prop}
    (h : (requestMachine site start).Reaches G c) :
    ∀ x ∈ c.trace, Written [] (apply site) x := by
  have hother : LeavesDocument (serveEffect site) := by
    intro τ x a s t r hserve
    cases x with
    | mint username | loginOk username method | revokeAll username => cases hserve; rfl
  exact (written_of_revisions verified_code hother (fun n l a hk => ⟨hk.computed, hk.noPut⟩) h).2

structure SpentWell (site : Site) (username : String) (trace : List RequestStep) (s : Shared) :
    Prop where
  increasing : (spentSteps trace).Pairwise (· < ·)
  below : ∀ b, row site username s = some b → ∀ n ∈ spentSteps trace, n ≤ b.mfa.lastStep
  once : ∀ code, (spentCodes trace).count code ≤ 1
  unused : ∀ b, row site username s = some b → ∀ code, (spentCodes trace).count code +
    b.mfa.recoveryHashes.countP (site.verifyPassword code) ≤ 1
  answered : ∀ x ∈ trace, ∀ m, passed x = some m → (x.thread, m) ∈ spentFactors trace

theorem spentFactors_snoc (trace : List RequestStep) (x : RequestStep) :
    spentFactors (trace ++ [x]) = spentFactors trace ++ (spent x).toList := by
  unfold spentFactors
  rw [filterMap_append]
  cases h : spent x with
  | none | some p => simp [h]

section Steps

variable {trace : List RequestStep} {x : RequestStep}

theorem mem_spentFactors_snoc (h : p ∈ spentFactors trace) : p ∈ spentFactors (trace ++ [x]) := by
  rw [spentFactors_snoc]
  exact mem_append_left _ h

/-- An access that spends nothing keeps the invariant, if the second factor of the record is what
it was and a login is answered for a factor it spent. -/
theorem SpentWell.keep (h : SpentWell site username trace x.before) (hspent : spent x = none)
    (hrow : ∀ b', row site username x.after = some b' →
      ∃ b, row site username x.before = some b ∧ b'.mfa = b.mfa)
    (hpassed : ∀ m, passed x = some m → (x.thread, m) ∈ spentFactors trace) :
    SpentWell site username (trace ++ [x]) x.after := by
  have hfactors : spentFactors (trace ++ [x]) = spentFactors trace := by
    rw [spentFactors_snoc, hspent]
    exact append_nil _
  have hsteps : spentSteps (trace ++ [x]) = spentSteps trace := by
    unfold spentSteps
    rw [hfactors]
  have hcodes : spentCodes (trace ++ [x]) = spentCodes trace := by
    unfold spentCodes
    rw [hfactors]
  constructor
  · rw [hsteps]
    exact h.increasing
  · intro b' hb' n hn
    obtain ⟨b, hb, hmfa⟩ := hrow b' hb'
    rw [hmfa]
    exact h.below b hb n (hsteps ▸ hn)
  · intro code
    rw [hcodes]
    exact h.once code
  · intro b' hb' code
    obtain ⟨b, hb, hmfa⟩ := hrow b' hb'
    rw [hcodes, hmfa]
    exact h.unused b hb code
  · intro y hy m hm
    rw [hfactors]
    rcases mem_append.mp hy with hy | hy
    · exact h.answered y hy m hm
    · rw [mem_singleton.mp hy] at hm ⊢
      exact hpassed m hm

theorem SpentWell.accept (h : SpentWell site username trace x.before) {user b b' : User} {n : Nat}
    (hspent : spent x = some (x.thread, .totp n)) (hpassed : passed x = none)
    (hlt : user.mfa.lastStep < n) (hb : row site username x.before = some b)
    (hmfa : b.mfa = user.mfa) (hb' : row site username x.after = some b')
    (hmfa' : b'.mfa = { user.mfa with lastStep := n }) :
    SpentWell site username (trace ++ [x]) x.after := by
  have hfactors : spentFactors (trace ++ [x]) = spentFactors trace ++ [(x.thread, .totp n)] := by
    rw [spentFactors_snoc, hspent]
    rfl
  have hsteps : spentSteps (trace ++ [x]) = spentSteps trace ++ [n] := by
    unfold spentSteps
    rw [hfactors, filterMap_append]
    rfl
  have hcodes : spentCodes (trace ++ [x]) = spentCodes trace := by
    unfold spentCodes
    rw [hfactors, filterMap_append]
    exact append_nil _
  have hbelow : ∀ k ∈ spentSteps trace, k < n := by
    intro k hk
    have hle := h.below b hb k hk
    rw [hmfa] at hle
    exact Nat.lt_of_le_of_lt hle hlt
  constructor
  · rw [hsteps, pairwise_append]
    refine ⟨h.increasing, pairwise_singleton _ _, ?_⟩
    intro k hk m hm
    rw [mem_singleton.mp hm]
    exact hbelow k hk
  · intro b'' hb'' k hk
    rw [hb'] at hb''
    cases hb''
    rw [hmfa']
    rw [hsteps] at hk
    rcases mem_append.mp hk with hk | hk
    · exact Nat.le_of_lt (hbelow k hk)
    · rw [mem_singleton.mp hk]
  · intro code
    rw [hcodes]
    exact h.once code
  · intro b'' hb'' code
    rw [hb'] at hb''
    cases hb''
    rw [hcodes, hmfa', ← hmfa]
    exact h.unused b hb code
  · intro y hy m hm
    rcases mem_append.mp hy with hy | hy
    · exact mem_spentFactors_snoc (h.answered y hy m hm)
    · rw [mem_singleton.mp hy, hpassed] at hm
      cases hm

theorem SpentWell.consume (h : SpentWell site username trace x.before) {user b b' : User}
    {code hash : String} {i : Nat} (hspent : spent x = some (x.thread, .recovery code))
    (hpassed : passed x = none) (hhash : user.mfa.recoveryHashes[i]? = some hash)
    (hverify : site.verifyPassword code hash = true) (hb : row site username x.before = some b)
    (hmfa : b.mfa = user.mfa) (hb' : row site username x.after = some b')
    (hmfa' : b'.mfa = { user.mfa with recoveryHashes := user.mfa.recoveryHashes.eraseIdx i }) :
    SpentWell site username (trace ++ [x]) x.after := by
  have hfactors : spentFactors (trace ++ [x]) =
    spentFactors trace ++ [(x.thread, .recovery code)] := by
    rw [spentFactors_snoc, hspent]
    rfl
  have hsteps : spentSteps (trace ++ [x]) = spentSteps trace := by
    unfold spentSteps
    rw [hfactors, filterMap_append]
    exact append_nil _
  have hcodes : spentCodes (trace ++ [x]) = spentCodes trace ++ [code] := by
    unfold spentCodes
    rw [hfactors, filterMap_append]
    rfl
  -- the spent hash leaves the list, so its code loses what the run gains
  have hcount : ∀ code', (spentCodes (trace ++ [x])).count code' +
      b'.mfa.recoveryHashes.countP (site.verifyPassword code') ≤ 1 := by
    intro code'
    have hle := h.unused b hb code'
    obtain ⟨hlt, hget⟩ := List.getElem?_eq_some_iff.mp hhash
    have hperm := List.getElem_cons_eraseIdx_perm hlt
    have hsplit := hperm.countP_eq (site.verifyPassword code')
    rw [hget, countP_cons] at hsplit
    rw [hmfa] at hle
    rw [hcodes, hmfa', count_append]
    dsimp only
    by_cases hsame : code' = code
    · rw [hsame, hverify, if_pos rfl] at hsplit
      rw [hsame] at hle ⊢
      rw [count_singleton_self]
      omega
    · rw [count_singleton, if_neg (by simpa using fun h => hsame h.symm)]
      omega
  constructor
  · rw [hsteps]
    exact h.increasing
  · intro b'' hb'' k hk
    rw [hb'] at hb''
    cases hb''
    rw [hmfa', ← hmfa]
    exact h.below b hb k (hsteps ▸ hk)
  · intro code'
    have hle := hcount code'
    omega
  · intro b'' hb'' code'
    rw [hb'] at hb''
    cases hb''
    exact hcount code'
  · intro y hy m hm
    rcases mem_append.mp hy with hy | hy
    · exact mem_spentFactors_snoc (h.answered y hy m hm)
    · rw [mem_singleton.mp hy, hpassed] at hm
      cases hm

end Steps

theorem Write.Derived.checked (h : w.Derived site) {user : User} {edit : Edit}
    (horigin : w.origin = some ⟨some user, edit⟩) :
    (∀ n, edit = .accepted n → user.mfa.lastStep < n) ∧
      ∀ code hashes, edit = .consumed code hashes → ∃ i hash,
        user.mfa.recoveryHashes[i]? = some hash ∧ site.verifyPassword code hash = true ∧
          hashes = user.mfa.recoveryHashes.eraseIdx i := by
  cases h with
  | saved user' edit' _ _ haccepted hconsumed =>
    simp only [Option.some.injEq, Origin.mk.injEq] at horigin
    obtain ⟨rfl, rfl⟩ := horigin
    exact ⟨haccepted, hconsumed⟩
  | patched username patch => simp at horigin
  | profile username user' patch prefs =>
    simp only [Option.some.injEq, Origin.mk.injEq] at horigin
    obtain ⟨rfl, rfl⟩ := horigin
    exact ⟨by simp, by simp⟩
  | deleted username => simp at horigin

variable {l : List (Nat × Method)}

theorem eq_of_pairwise_lt {f : Method → Option Nat}
    (h : (l.filterMap fun p => f p.2).Pairwise (· < ·)) (hp : p ∈ l) (hq : q ∈ l) {n : Nat}
    (hfp : f p.2 = some n) (hfq : f q.2 = some n) : p = q := by
  rw [pairwise_filterMap] at h
  obtain ⟨i, hi, rfl⟩ := List.getElem_of_mem hp
  obtain ⟨j, hj, rfl⟩ := List.getElem_of_mem hq
  rcases Nat.lt_trichotomy i j with hlt | rfl | hlt
  · exact absurd (pairwise_iff_getElem.mp h i j hi hj hlt n hfp n hfq) (Nat.lt_irrefl n)
  · rfl
  · exact absurd (pairwise_iff_getElem.mp h j i hj hi hlt n hfq n hfp) (Nat.lt_irrefl n)

theorem eq_of_count_le (h : ∀ code, (l.filterMap fun p => p.2.code?).count code ≤ 1) (hp : p ∈ l)
    (hq : q ∈ l) {code : String} (hcp : p.2.code? = some code) (hcq : q.2.code? = some code) :
    p = q := by
  have hnodup : (l.filterMap fun p => p.2.code?).Nodup := nodup_iff_count_le_one.mpr h
  rw [List.Nodup, pairwise_filterMap] at hnodup
  obtain ⟨i, hi, rfl⟩ := List.getElem_of_mem hp
  obtain ⟨j, hj, rfl⟩ := List.getElem_of_mem hq
  rcases Nat.lt_trichotomy i j with hlt | rfl | hlt
  · exact absurd rfl (pairwise_iff_getElem.mp hnodup i j hi hj hlt code hcp code hcq)
  · rfl
  · exact absurd rfl (pairwise_iff_getElem.mp hnodup j i hj hi hlt code hcq code hcp)

def LoginRun (site : Site) (username : String) (c : Requests) (move : RequestMove) : Prop :=
  LoginsOf site username move ∧ FactorKept site c move

variable {trace : List RequestStep}

/-- **The step of a login's write**: it spends the factor that was checked, or sets the time of
the login. -/
theorem SpentWell.write (h : SpentWell site username trace x.before)
    (hx : Written [] (apply site) x) (hact : x.act = .putIf w e current value)
    (hderived : w.Derived site) (hname : site.norm name = site.norm username)
    (hlogin : w.OfLogin site name)
    (hkept : x.after.doc.rev ≠ x.before.doc.rev → ∀ user edit, w.origin = some ⟨some user, edit⟩ →
      (row site user.username x.before).map User.mfa = some user.mfa)
    (hdoc : x.after.doc.rev = x.before.doc.rev → x.after.doc = x.before.doc) :
    SpentWell site username (trace ++ [x]) x.after := by
  obtain ⟨τ, a, r, s, t⟩ := x
  simp only at hact
  subst hact
  by_cases hrev : t.doc.rev = s.doc.rev
  · refine h.keep (by simp [spent, hrev]) ?_ (fun m hm => by cases hm)
    intro b' hb'
    rw [row, hdoc hrev] at hb'
    exact ⟨b', hb', rfl⟩
  obtain ⟨base, hbase, hrow⟩ := row_of_written hx rfl hrev username
  rcases hlogin with ⟨user, edit, rfl, hmethod, huser⟩ | ⟨now, rfl⟩
  · have huser' : site.norm username = site.norm user.username := (huser.trans hname).symm
    obtain ⟨b, hb, hmfa⟩ := Option.map_eq_some_iff.mp (hkept hrev user edit rfl)
    rw [row_congr huser'.symm] at hb
    have hsaved : site.norm username = site.norm (edit.apply user).username := by
      rw [huser']
      cases edit <;> rfl
    rw [Change.username, if_pos hsaved] at hrow
    obtain ⟨b', hb', hmfa'⟩ : ∃ b', row site username t = some b' ∧
        b'.mfa = (edit.apply user).mfa := by
      cases base with
      | none | some existing => exact ⟨_, hrow, rfl⟩
    have hspent : ∀ m, edit.method? = some m → spent (⟨τ, .putIf ⟨.save (edit.apply user),
        some ⟨some user, edit⟩⟩ e current value, r, s, t⟩ : RequestStep) = some (τ, m) := by
      intro m hm
      simp [spent, hrev, hm]
    obtain ⟨haccepted, hconsumed⟩ := hderived.checked rfl
    cases edit with
    | accepted n =>
      exact h.accept (hspent _ rfl) rfl (haccepted n rfl) hb hmfa hb' hmfa'
    | consumed code hashes =>
      obtain ⟨i, hash, hhash, hverify, rfl⟩ := hconsumed code hashes rfl
      exact h.consume (hspent _ rfl) rfl hhash hverify hb hmfa hb' hmfa'
    | _ => cases hmethod
  · refine h.keep (by simp [spent, hrev, Edit.method?]) ?_ (fun m hm => by cases hm)
    intro b' hb'
    rw [hrow] at hb'
    have hpatched : ∀ {b : Option User},
      (Change.update name { lastLoginAt := some now }).row e.now b =
        some b' → ∃ b0, b = some b0 ∧ b'.mfa = b0.mfa := by
      intro b hb
      obtain ⟨b0, hb0, rfl⟩ := Option.map_eq_some_iff.mp hb
      exact ⟨b0, hb0, rfl⟩
    have hfrom : ∃ b0, base = some b0 ∧ b'.mfa = b0.mfa := by
      split at hb'
      · exact hpatched hb'
      · exact ⟨b', hb', rfl⟩
    obtain ⟨b0, rfl, hmfa⟩ := hfrom
    rcases hbase with hbase | hbase
    · exact ⟨b0, hbase.symm, hmfa⟩
    · cases hbase

theorem spentWell_of_reaches
    (h : (requestMachine site (Enrolled site username)).Reaches (LoginRun site username) c) :
    SpentWell site username c.trace c.state := by
  refine Service.trace_induction verified_code ?_ ?_ h
  · intro s hs
    refine ⟨List.Pairwise.nil, fun b _ n hn => absurd hn not_mem_nil, fun code => Nat.zero_le _,
      fun b hb code => ?_, fun x hx => absurd hx not_mem_nil⟩
    simpa [spentCodes, spentFactors] using hs b hb code
  · intro c τ answer n a k t r hc hI hτ hknows hG hserve
    have hname := Service.names_of_reaches
      (N := fun n => ∃ subject code, n = .mfaVerify subject code ∧
        ∀ name, subject = some name → site.norm name = site.norm username)
      (fun c n hn => by
        cases n with
        | mfaVerify subject code => exact ⟨subject, code, rfl, hn.1⟩
        | _ => exact hn.1.elim) hc (n, .act a k) (mem_of_getElem? hτ)
    obtain ⟨subject, code, rfl, hsubject⟩ := hname
    have hx : Written [] (apply site) (⟨τ, a, r, c.state, t⟩ : RequestStep) := by
      have hstep : (requestMachine site (Enrolled site username)).step c (.step τ answer) =
          some ⟨t, c.clients.set τ (.mfaVerify subject code, k r),
            c.trace ++ [⟨τ, a, r, c.state, t⟩]⟩ := by
        simp only [requestMachine, Service.machine, Service.step, hτ, hserve]
      exact written_of_requests (hc.step hG hstep) _ (mem_append_right _ mem_cons_self)
    have hsame : t = c.state → spent (⟨τ, a, r, c.state, t⟩ : RequestStep) = none →
        (∀ m, passed (⟨τ, a, r, c.state, t⟩ : RequestStep) = some m →
          (τ, m) ∈ spentFactors c.trace) →
        SpentWell site username (c.trace ++ [⟨τ, a, r, c.state, t⟩]) t := by
      rintro rfl hspent hpassed
      exact hI.keep hspent (fun b' hb' => ⟨b', hb', rfl⟩) hpassed
    cases a with
    | get => exact hsame (serve_get hserve).1 rfl fun m hm => by cases hm
    | moment => exact hsame (serve_moment hserve) rfl fun m hm => by cases hm
    | put value => exact absurd rfl (hknows.noPut value)
    | other x =>
      cases x with
      | mint name => cases hserve; exact hsame rfl rfl fun m hm => by cases hm
      | revokeAll name =>
        cases hserve
        exact hI.keep rfl (fun b' hb' => ⟨b', hb', rfl⟩) fun m hm => by cases hm
      | loginOk name method =>
        cases hserve
        refine hsame rfl rfl ?_
        rintro m ⟨⟩
        have hkept := hG.2
        simp only [FactorKept, Service.action, hτ] at hkept
        exact hkept
    | putIf w e current value =>
      obtain ⟨name, rfl, hlogin⟩ := hknows.login w e current value rfl _ _ rfl
      have hserved := serve_putIf hserve
      refine hI.write hx rfl (hknows.derived w e current value rfl) (hsubject name rfl) hlogin ?_ ?_
      · rintro hrev user edit horigin
        obtain ⟨change, origin⟩ := w
        dsimp only at horigin
        subst horigin
        have hkept := hG.2
        simp only [FactorKept, Service.action, hτ] at hkept
        rcases hserved.2 with hdoc | ⟨hpass, -⟩
        · exact absurd (congrArg Document.rev hdoc) hrev
        · exact hkept hpass
      · intro hrev
        rcases hserved.2 with hdoc | ⟨hpass, hdoc⟩
        · exact hdoc
        · have hnext : t.doc.rev = c.state.doc.rev + 1 := by rw [hdoc, hpass]
          dsimp only at hrev
          omega

theorem SpentWell.eq_of_mem {s : Shared} (h : SpentWell site username trace s)
    (hp : p ∈ spentFactors trace) (hq : q ∈ spentFactors trace) (heq : p.2 = q.2) : p = q := by
  cases hm : p.2 with
  | totp step =>
    exact eq_of_pairwise_lt h.increasing hp hq (n := step) (by rw [hm]; rfl)
      (by rw [← heq, hm]; rfl)
  | recovery code =>
    exact eq_of_count_le h.once hp hq (by rw [hm]; rfl) (by rw [← heq, hm]; rfl)

/-- **Second factors are used once** in every run of logins of one user in which a save
replaces a record with the second factor it was checked against and a login is answered after
its save took effect: two logins that were answered were passed with different factors, each
was passed with a factor it spent itself, and the accepted time steps only grow. -/
theorem second_factors_single_use (site : Site) (username : String) {c : Requests}
    (h : (requestMachine site (Enrolled site username)).Reaches (LoginRun site username) c) :
    (∀ x ∈ c.trace, ∀ y ∈ c.trace, ∀ m, passed x = some m → passed y = some m →
      x.thread = y.thread) ∧
    (∀ x ∈ c.trace, ∀ m, passed x = some m → (x.thread, m) ∈ spentFactors c.trace) ∧
    (spentSteps c.trace).Pairwise (· < ·) := by
  have hI := spentWell_of_reaches h
  refine ⟨?_, hI.answered, hI.increasing⟩
  intro x hx y hy m hxm hym
  have hsame := hI.eq_of_mem (hI.answered x hx m hxm) (hI.answered y hy m hym) rfl
  exact congrArg Prod.fst hsame

/-! ### Two runs -/

/-- `LoginsOf` and `FactorKept`, evaluated. -/
def loginsOf (site : Site) (username : String) (move : RequestMove) : Bool :=
  match move with
  | .start (.mfaVerify subject _) => subject.all fun name => site.norm name == site.norm username
  | .start _ => false
  | .step .. => true

def factorKept (site : Site) (c : Requests) (move : RequestMove) : Bool :=
  match Service.action c move with
  | some (_, .putIf ⟨_, some ⟨some user, _⟩⟩ _ current _) =>
    c.state.doc.rev != revOf current ||
      (row site user.username c.state).map User.mfa == some user.mfa
  | some (τ, .other (.loginOk _ method)) => (spentFactors c.trace).contains (τ, method)
  | _ => true

variable {move : RequestMove}

theorem loginsOf_iff (h : loginsOf site username move = true) : LoginsOf site username move := by
  cases move with
  | step τ answer => trivial
  | start n =>
    cases n with
    | mfaVerify subject code =>
      rintro name rfl
      simpa [loginsOf] using h
    | _ => cases h

theorem factorKept_iff (h : factorKept site c move = true) : FactorKept site c move := by
  unfold factorKept at h
  unfold FactorKept
  split
  · rename_i heq
    rw [heq] at h
    intro hrev
    simpa [hrev] using h
  · rename_i heq
    rw [heq] at h
    exact contains_iff_mem.mp h
  · trivial

def sampleEnrolled : Shared :=
  ⟨⟨[.valid { sampleUser "alice" with
    mfa := { enabled := true, secret := "secret", recoveryHashes := ["RECOVERY"] } }], 1⟩,
    Dict.empty⟩

def accessAt (τ : Nat) : RequestMove := .step τ ⟨.answered, ⟨"now", 30⟩, true⟩

theorem start_sampleEnrolled :
    (requestMachine sampleSite (Enrolled sampleSite "alice")).start ⟨sampleEnrolled, [], []⟩ := by
  refine ⟨?_, rfl, rfl⟩
  rintro user ⟨⟩ code
  exact countP_le_length

set_option maxRecDepth 10000 in
/-- Two logins, one after another, with the current code and with a recovery code. -/
theorem second_factors_single_use_of_two :
    ∃ c, (requestMachine sampleSite (Enrolled sampleSite "alice")).Reaches
        (LoginRun sampleSite "alice") c ∧
      c.trace.filterMap passed = [.totp 1, .recovery "RECOVERY"] ∧
      (spentSteps c.trace).Pairwise (· < ·) := by
  have hrun : (((requestMachine sampleSite (Enrolled sampleSite "alice")).runChecked
      (fun c move => loginsOf sampleSite "alice" move && factorKept sampleSite c move)
      ⟨sampleEnrolled, [], []⟩
      ([.start (.mfaVerify (some "alice") "111111"),
        .start (.mfaVerify (some "alice") "RECOVERY")] ++
        List.replicate 12 (accessAt 0) ++ List.replicate 12 (accessAt 1))).any fun c =>
      c.trace.filterMap passed == [.totp 1, .recovery "RECOVERY"]) = true := by decide
  obtain ⟨c, hc, hend⟩ := Machine.reaches_of_runChecked (fun c move hcheck => by
    rw [Bool.and_eq_true] at hcheck
    exact (⟨loginsOf_iff hcheck.1, factorKept_iff hcheck.2⟩ : LoginRun sampleSite "alice" c move))
    start_sampleEnrolled hrun
  exact ⟨c, hc, by simpa using hend, (second_factors_single_use sampleSite "alice" hc).2.2⟩

set_option maxRecDepth 10000 in
/-- Two overlapping logins pass with one code: each was checked before the other saved. -/
theorem overlapping_logins_share_code :
    ¬ ∀ c, (requestMachine sampleSite (Enrolled sampleSite "alice")).Reaches
        (fun _ move => LoginsOf sampleSite "alice" move) c →
      ∀ x ∈ c.trace, ∀ y ∈ c.trace, ∀ m, passed x = some m → passed y = some m →
        x.thread = y.thread := by
  intro hall
  have hrun : (((requestMachine sampleSite (Enrolled sampleSite "alice")).runChecked
      (fun _ move => loginsOf sampleSite "alice" move) ⟨sampleEnrolled, [], []⟩
      ([.start (.mfaVerify (some "alice") "111111"), .start (.mfaVerify (some "alice") "111111")] ++
        List.replicate 2 (accessAt 0) ++ List.replicate 2 (accessAt 1) ++
        List.replicate 10 (accessAt 0) ++ List.replicate 10 (accessAt 1))).any fun c =>
      c.trace.any (fun x => x.thread == 0 && passed x == some (.totp 1)) &&
        c.trace.any (fun x => x.thread == 1 && passed x == some (.totp 1))) = true := by
    decide
  obtain ⟨c, hc, hend⟩ := Machine.reaches_of_runChecked (fun _ _ => loginsOf_iff)
    start_sampleEnrolled hrun
  simp only [Bool.and_eq_true, any_eq_true, beq_iff_eq] at hend
  obtain ⟨⟨x, hx, hx0, hxm⟩, y, hy, hy1, hym⟩ := hend
  have hsame := hall c hc x hx y hy _ hxm hym
  rw [hx0, hy1] at hsame
  cases hsame

end AgenticKibana.Users
