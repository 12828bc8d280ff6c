import AgenticKibana.Sessions.Redemption

/-!
# Revocation is final

A session is revoked by a mark on its row, and all sessions of a user by raising the
token version in the user's sentinel row.  Both last as long as their rows do: a row that
is bounded away while a token of its session is young, a name that was re-keyed away, or
a registration that began before the revocation brings the session back.
-/

namespace AgenticKibana.Sessions

open AgenticKibana.Library AgenticKibana.Stores List

variable {site : Site}

/-! ### The condition on a run -/

def Answered (move : RequestMove) : Prop :=
  match move with
  | .step _ answer => answer.fault = .answered
  | .start _ => True

def Clocked (c : Requests) (move : RequestMove) : Prop :=
  match move with
  | .step _ answer => ∀ x ∈ c.trace, ∀ now, clock x = some now → now ≤ answer.moment
  | .start _ => True

def passed (x : RequestStep) : Option Claims :=
  match x.act with
  | .other (.allow claims) => some claims
  | _ => none

def touched (site : Site) (x : RequestStep) : List Row :=
  x.before.doc.value ++ match x.act with
    | .putIf w e _ _ =>
      if x.after.doc.rev ≠ x.before.doc.rev then w.change.edit site e (loaded x.before.doc.value)
      else []
    | _ => []

theorem issuedBeforePruneGrace_mono {claims : Claims} {e now : Nat} (hle : e ≤ now)
    (h : issuedBeforePruneGrace claims e = true) : issuedBeforePruneGrace claims now = true := by
  simp only [issuedBeforePruneGrace, Bool.and_eq_true, decide_eq_true_eq] at h ⊢
  exact ⟨h.1, Nat.lt_of_lt_of_le h.2 hle⟩

def since (τ : Nat) (trace : List RequestStep) : List RequestStep :=
  trace.dropWhile fun x => x.thread != τ

/-- No row of a login is revoked in `rows`. -/
def Unrevoked (trace : List RequestStep) (sid : String) (rows : List Row) : Prop :=
  ∀ row ∈ rows, row.isSentinel = false → login trace row.sid = login trace sid → row.revoked = false

/-- No name that was re-keyed away is registered again, and no registration takes effect for a
session that was revoked since its request began. -/
def FirstSight (site : Site) (c : Requests) (move : RequestMove) : Prop :=
  match Service.action c move with
  | some (τ, .putIf ⟨.create row, _⟩ _ current _) => row.sid ∉ superseded c.trace ∧
      (c.state.doc.rev = revOf current → Unrevoked c.trace row.sid c.state.doc.value ∧
        ∀ y ∈ since τ c.trace, Unrevoked c.trace row.sid (touched site y))
  | _ => True

def rotationOf (change : Change) (rows : List Row) : Option (String × String) :=
  match change with
  | .rekeyAndRotate oldSid newSid _ _ =>
    if (rows.any fun r => r.sid == oldSid) = true then some (oldSid, newSid) else none
  | _ => none

/-- Bounding the registry drops no sentinel, and no revoked row while a token of its session would
be registered on first sight. -/
def Kept (site : Site) (c : Requests) (move : RequestMove) : Prop :=
  match Service.action c move with
  | some (_, .putIf w e current _) => c.state.doc.rev = revOf current →
      let edited := w.change.edit site e (loaded c.state.doc.value)
      let login := follow (rotations c.trace ++ (rotationOf w.change c.state.doc.value).toList)
      ∀ row ∈ edited, row ∈ bound e edited ∨ row.isSentinel = false ∧ (row.revoked = true →
        ∀ p ∈ c.state.rest.issued, login p.claims.sid = login row.sid →
          issuedBeforePruneGrace p.claims e = true)
  | _ => True

def RevocationRun (site : Site) (c : Requests) (move : RequestMove) : Prop :=
  Answered move ∧ Clocked c move ∧ Rotates c move ∧ FirstSight site c move ∧ Kept site c move

/-! ### A write that took effect -/

/-- A write that took effect, computed from the stored rows. -/
structure Changed (site : Site) (trace : List RequestStep) (x : RequestStep) (change : Change)
    (e : Nat) : Prop where
  registry : Registry trace x.before
  next : Registry (trace ++ [x]) x.after
  act : ∃ redeems current value, x.act = .putIf ⟨change, redeems⟩ e current value
  rev : x.after.doc.rev ≠ x.before.doc.rev
  rest : x.after.rest = x.before.rest
  rows : x.after.doc.value = bound e (change.edit site e (loaded x.before.doc.value))
  create : ∀ row, change = .create row → Registered trace x.before row.sid ∧
    row.sid ∉ superseded trace ∧ row.revoked = false
  rotate : ∀ oldSid newSid newHash idle, change = .rekeyAndRotate oldSid newSid newHash idle →
    isSentinel oldSid = false ∧
      ∃ p ∈ x.before.rest.issued, p.claims.sid = newSid ∧ p.origin = some oldSid

section Changed

variable {trace : List RequestStep} {x : RequestStep} {change : Change} {e : Nat}

theorem loaded_sublist (rows : List Row) : (loaded rows).Sublist rows := filter_sublist

theorem rotation_putIf {redeems : Option String} {current : Option (Document (List Row))}
    {value : List Row} (hact : x.act = .putIf ⟨change, redeems⟩ e current value)
    (hrev : x.after.doc.rev ≠ x.before.doc.rev) :
    rotation x = rotationOf change x.before.doc.value := by
  obtain ⟨τ, a, r, s, t⟩ := x
  dsimp only at hact hrev ⊢
  subst hact
  cases change with
  | rekeyAndRotate oldSid newSid newHash idle =>
    simp only [rotation, rotationOf, ne_eq, hrev, not_false_eq_true, true_and]
  | _ => rfl

variable (h : Changed site trace x change e)

include h

theorem Changed.rotation_eq : rotation x = rotationOf change x.before.doc.value := by
  obtain ⟨redeems, current, value, hact⟩ := h.act
  exact rotation_putIf hact h.rev

theorem Changed.login_eq : login (trace ++ [x]) = follow (rotations trace ++
      (rotationOf change x.before.doc.value).toList) := by
  funext sid
  unfold login
  rw [rotations_snoc, h.rotation_eq]

theorem Changed.nodup : ((change.edit site e (loaded x.before.doc.value)).map Row.sid).Nodup := by
  refine nodup_edit (((loaded_sublist _).map Row.sid).nodup h.registry.distinct) ?_
  rintro oldSid newSid newHash idle hchange ⟨r, hr, hold⟩ hmem
  obtain ⟨hsentinel, hissued⟩ := h.rotate oldSid newSid newHash idle hchange
  have hstored := h.registry.stored r ((loaded_sublist _).subset hr)
    (by rw [Row.isSentinel, hold]; exact hsentinel)
  rw [hold] at hstored
  have hunused := h.registry.unused hstored.2 hissued
  obtain ⟨p, hp, hname, -⟩ := hissued
  refine h.registry.notMem_sids ?_ hunused (((loaded_sublist _).map Row.sid).subset hmem)
  rw [← hname]
  exact (h.registry.named p hp).2

theorem Changed.full : ∃ y : RequestStep,
    y.after.doc.value = change.edit site e (loaded x.before.doc.value) ∧
      y.after.rest = x.after.rest ∧ rotation y = rotation x ∧ Registry (trace ++ [y]) y.after := by
  obtain ⟨redeems, current, value, hact⟩ := h.act
  refine ⟨⟨x.thread, x.act, x.reply, x.before,
    ⟨⟨change.edit site e (loaded x.before.doc.value), x.after.doc.rev⟩, x.after.rest⟩⟩, rfl, rfl,
    ?_, ?_⟩
  · rw [rotation_putIf hact h.rev]
    exact rotation_putIf hact h.rev
  · exact h.registry.write (x := ⟨x.thread, x.act, x.reply, x.before,
      ⟨⟨change.edit site e (loaded x.before.doc.value), x.after.doc.rev⟩, x.after.rest⟩⟩)
      (loaded_sublist _) hact (List.Subperm.refl _) h.rest h.rev
      (fun row hc => ⟨(h.create row hc).1, (h.create row hc).2.1⟩) h.rotate

variable {row : Row}

theorem Changed.registered (hrow : row ∈ change.edit site e (loaded x.before.doc.value))
    (hsen : row.isSentinel = false) :
    Registered (trace ++ [x]) x.after row.sid := by
  obtain ⟨y, hrows, hrest, hrotation, hfull⟩ := h.full
  have hreg := (hfull.stored row (hrows ▸ hrow) hsen).1
  unfold Registered at hreg ⊢
  rw [rotations_snoc, hrotation, ← rotations_snoc, hrest] at hreg
  exact hreg

theorem Changed.unique {row' : Row} (hrow : row ∈ change.edit site e (loaded x.before.doc.value))
    (hrow' : row' ∈ change.edit site e (loaded x.before.doc.value))
    (hsen : row.isSentinel = false) (hsen' : row'.isSentinel = false)
    (hlogin : login (trace ++ [x]) row.sid = login (trace ++ [x]) row'.sid) : row = row' := by
  obtain ⟨y, hrows, -, hrotation, hfull⟩ := h.full
  have hstored := hfull.stored row (hrows ▸ hrow) hsen
  have hstored' := hfull.stored row' (hrows ▸ hrow') hsen'
  have hsid := hfull.heads _ _ hstored.1 hstored'.1 hstored.2 hstored'.2 (by
    unfold login at hlogin ⊢
    rw [rotations_snoc, hrotation, ← rotations_snoc]
    exact hlogin)
  exact inj_on_of_nodup_map h.nodup hrow hrow' hsid

theorem Changed.of_rotation {oldSid newSid : String}
    (hrotation : rotation x = some (oldSid, newSid)) :
    ¬ Registered trace x.before newSid ∧ Registered trace x.before oldSid ∧
      oldSid ∉ superseded trace := by
  obtain ⟨newHash, idle, redeems', e', current', value', hact', -, r, hr, hold⟩ :=
    Sessions.of_rotation hrotation
  obtain ⟨redeems, current, value, hact⟩ := h.act
  rw [hact] at hact'
  cases hact'
  obtain ⟨hsentinel, hissued⟩ := h.rotate _ _ _ _ rfl
  have hstored := h.registry.stored r hr (by rw [Row.isSentinel, hold]; exact hsentinel)
  rw [hold] at hstored
  exact ⟨h.registry.unused hstored.2 hissued, hstored⟩

variable {sid : String}

theorem Changed.login_old (hsid : Registered trace x.before sid) :
    login (trace ++ [x]) sid = login trace sid := by
  cases hrotation : rotation x with
  | none => rw [login_of_none hrotation]
  | some p =>
    obtain ⟨oldSid, newSid⟩ := p
    have hne : sid ≠ newSid := by
      rintro rfl
      exact (h.of_rotation hrotation).1 hsid
    unfold login
    rw [rotations_snoc, hrotation]
    exact (follow_snoc _ _ sid).trans (if_neg hne)

theorem Changed.login_new {oldSid newSid newHash : String}
    {idle : Nat} (hchange : change = .rekeyAndRotate oldSid newSid newHash idle)
    (hheld : ∃ r ∈ x.before.doc.value, r.sid = oldSid) :
    login (trace ++ [x]) newSid = login trace oldSid := by
  obtain ⟨r, hr, hold⟩ := hheld
  have hrotation : rotation x = some (oldSid, newSid) := by
    have hany : (x.before.doc.value.any fun r => r.sid == oldSid) = true :=
      any_eq_true.mpr ⟨r, hr, by simpa using hold⟩
    rw [h.rotation_eq, hchange]
    simp only [rotationOf, hany, if_true]
  unfold login
  rw [rotations_snoc, hrotation]
  exact (follow_snoc _ _ newSid).trans (if_pos rfl)

theorem Changed.of_mem (hrow : row ∈ change.edit site e (loaded x.before.doc.value))
    (hsen : row.isSentinel = false) :
    change = .create row ∨ ∃ r ∈ x.before.doc.value, r.isSentinel = false ∧
      login (trace ++ [x]) row.sid = login trace r.sid ∧
        (r.revoked = true → row.revoked = true) := by
  have hnodup : ((loaded x.before.doc.value).map Row.sid).Nodup :=
    ((loaded_sublist _).map Row.sid).nodup h.registry.distinct
  cases mem_edit hnodup hrow with
  | created hchange => exact .inl hchange
  | sentinel username hsid _ _ =>
    rw [Row.isSentinel, hsid, isSentinel_tvKey] at hsen
    cases hsen
  | rekeyed oldSid newSid newHash idle r hchange hr hold hrekey =>
    have hr' := (loaded_sublist _).subset hr
    refine .inr ⟨r, hr', ?_, ?_, ?_⟩
    · rw [Row.isSentinel, hold]
      exact (h.rotate _ _ _ _ hchange).1
    · rw [hrekey, hold]
      exact h.login_new hchange ⟨r, hr', hold⟩
    · intro hrevoked
      rw [hrekey]
      exact hrevoked
  | kept r hr hkept _ _ =>
    have hr' := (loaded_sublist _).subset hr
    have hsen' : r.isSentinel = false := by rw [Row.isSentinel, ← hkept.sid]; exact hsen
    refine .inr ⟨r, hr', hsen', ?_, hkept.revoked⟩
    rw [hkept.sid]
    exact h.login_old (h.registry.stored r hr' hsen').1

theorem Changed.mem_of_mem {r : Row} (hr : r ∈ x.before.doc.value) (hsid : r.sid ≠ "")
    (hcreate : ∀ row, change = .create row → r.sid ≠ row.sid) :
    ∃ row ∈ change.edit site e (loaded x.before.doc.value), row.isSentinel = r.isSentinel ∧
      (r.isSentinel = false → login (trace ++ [x]) row.sid = login trace r.sid) ∧
      (r.isSentinel = true → row.sid = r.sid) ∧
      (r.revoked = true → row.revoked = true) ∧ r.tokenVersion ≤ row.tokenVersion := by
  have hloaded : r ∈ loaded x.before.doc.value := mem_filter.mpr ⟨hr, by simpa using hsid⟩
  -- the row itself, or a row of its name
  have hsame : ∀ row ∈ change.edit site e (loaded x.before.doc.value), row.sid = r.sid →
      (r.revoked = true → row.revoked = true) → r.tokenVersion ≤ row.tokenVersion →
      ∃ row ∈ change.edit site e (loaded x.before.doc.value), row.isSentinel = r.isSentinel ∧
        (r.isSentinel = false → login (trace ++ [x]) row.sid = login trace r.sid) ∧
        (r.isSentinel = true → row.sid = r.sid) ∧
        (r.revoked = true → row.revoked = true) ∧ r.tokenVersion ≤ row.tokenVersion := by
    intro row hrow heq hrevoked hversion
    refine ⟨row, hrow, ?_, ?_, fun _ => heq, hrevoked, hversion⟩
    · rw [Row.isSentinel, heq]
      rfl
    · intro hsen
      rw [heq]
      exact h.login_old (h.registry.stored r hr hsen).1
  have hrevoke : ∀ q : Row → Bool, ∃ row, row ∈ (loaded x.before.doc.value).map
      (fun r => if q r then r.revoke e else r) ∧ row.sid = r.sid ∧
      (r.revoked = true → row.revoked = true) ∧ r.tokenVersion ≤ row.tokenVersion := by
    intro q
    refine ⟨_, mem_map.mpr ⟨r, hloaded, rfl⟩, (revoke_kept r).sid, (revoke_kept r).revoked, ?_⟩
    split
    · exact Nat.le_refl _
    · exact Nat.le_refl _
  cases change with
  | create row =>
    refine hsame r ?_ rfl id (Nat.le_refl _)
    simp only [Change.edit]
    split
    · rcases mem_updateFirst_of_mem hloaded with hmem | ⟨heq, -⟩
      · exact hmem
      · exact absurd (by simpa using heq) (hcreate row rfl)
    · exact mem_append_left _ hloaded
  | touch sid idle =>
    rcases mem_updateFirst_of_mem hloaded with hmem | ⟨-, hmem⟩
    · exact hsame r hmem rfl id (Nat.le_refl _)
    · refine hsame _ hmem ?_ ?_ ?_
      · split <;> rfl
      · split
        · exact id
        · exact id
      · split
        · exact Nat.le_refl _
        · exact Nat.le_refl _
  | rekeyAndRotate oldSid newSid newHash idle =>
    rcases mem_updateFirst_of_mem hloaded with hmem | ⟨heq, hmem⟩
    · exact hsame r hmem rfl id (Nat.le_refl _)
    · have hold : r.sid = oldSid := by simpa using heq
      obtain ⟨hsentinel, p, hp, hname, -⟩ := h.rotate _ _ _ _ rfl
      refine ⟨_, hmem, ?_, ?_, ?_, id, Nat.le_refl _⟩
      · show isSentinel newSid = isSentinel r.sid
        rw [hold, hsentinel, ← hname]
        exact (h.registry.named p hp).2
      · intro _
        rw [hold]
        exact h.login_new rfl ⟨r, hr, hold⟩
      · intro hsen
        rw [Row.isSentinel, hold, hsentinel] at hsen
        cases hsen
  | revoke sid =>
    rcases mem_updateFirst_of_mem hloaded with hmem | ⟨-, hmem⟩
    · exact hsame r hmem rfl id (Nat.le_refl _)
    · exact hsame _ hmem rfl (fun _ => rfl) (Nat.le_refl _)
  | revokeAll username exceptSid =>
    obtain ⟨row, hmem, heq, hrevoked, hversion⟩ :=
      hrevoke fun r => r.another site username exceptSid
    simp only [Change.edit, bumpVersion] at hsame ⊢
    split at hsame
    · rename_i hsentinel
      rw [if_pos hsentinel]
      rcases mem_updateFirst_of_mem hmem with hmem' | ⟨-, hmem'⟩
      · exact hsame row hmem' heq hrevoked hversion
      · exact hsame _ hmem' heq hrevoked (hversion.trans (Nat.le_succ _))
    · rename_i hsentinel
      rw [if_neg hsentinel]
      exact hsame row (mem_append_left _ hmem) heq hrevoked hversion
  | revokeOthers username keepSid =>
    obtain ⟨row, hmem, heq, hrevoked, hversion⟩ :=
      hrevoke fun r => r.another site username keepSid
    exact hsame row hmem heq hrevoked hversion
  | prune => exact hsame r hloaded rfl id (Nat.le_refl _)

theorem Changed.of_registered (hsid : Registered (trace ++ [x]) x.after sid) :
    Registered trace x.before sid ∨
      ∃ r ∈ x.before.doc.value, r.isSentinel = false ∧
        login (trace ++ [x]) sid = login trace r.sid := by
  unfold Registered at hsid
  rw [h.rest, rotations_snoc, map_append, mem_append] at hsid
  rcases hsid with hroot | hmem | hmem
  · exact .inl (.inl hroot)
  · exact .inl (.inr hmem)
  · cases hrotation : rotation x with
    | none => simp [hrotation] at hmem
    | some p =>
      obtain ⟨oldSid, newSid⟩ := p
      rw [hrotation] at hmem
      simp only [Option.toList_some, map_cons, map_nil, mem_singleton] at hmem
      obtain ⟨newHash, idle, redeems', e', current', value', hact', -, r, hr, hold⟩ :=
        Sessions.of_rotation hrotation
      obtain ⟨redeems, current, value, hact⟩ := h.act
      rw [hact] at hact'
      cases hact'
      refine .inr ⟨r, hr, ?_, ?_⟩
      · rw [Row.isSentinel, hold]
        exact (h.rotate _ _ _ _ rfl).1
      · rw [hmem, hold]
        exact h.login_new rfl ⟨r, hr, hold⟩

end Changed

variable {sid : String}

theorem Registry.named_of_registered {trace : List RequestStep} {s : Shared}
    (h : Registry trace s) (hsid : Registered trace s sid) :
    sid ≠ "" ∧ isSentinel sid = false := by
  rcases hsid with ⟨p, hp, -, rfl⟩ | hmem
  · exact h.named p hp
  · obtain ⟨⟨oldSid, newSid⟩, hlink, rfl⟩ := mem_map.mp hmem
    obtain ⟨-, p, hp, rfl, -⟩ := h.links _ _ hlink
    exact h.named p hp

/-! ### Runs -/

section Runs

variable {c : Requests}

theorem rotates_of_run (c : Requests) (move : RequestMove) (h : RevocationRun site c move) :
    Rotates c move := h.2.2.1

variable {x y : RequestStep} {l trace : List RequestStep} {current : Option (Document (List Row))}
  {e τ : Nat} {n : Request} {t s : Shared} {w : Write} {G : Requests → RequestMove → Prop}
  {rows : List Row}

theorem rows_of_read (h : (requestMachine site).Reaches (RevocationRun site) c) (hx : x ∈ c.trace)
    (hread : rowsRead x = some rows) : rows = x.before.doc.value := by
  obtain ⟨l, m, htrace⟩ := append_of_mem hx
  obtain ⟨d, answer, n, k, -, -, -, hG, -, hserve⟩ := Service.access_of_reaches h htrace
  have hanswered : answer.fault = .answered := hG.1
  obtain ⟨τ, a, r, s, t⟩ := x
  cases a with
  | get =>
    simp only [service, hanswered, Option.some.injEq] at hserve
    obtain ⟨-, rfl⟩ := hserve
    cases hread
    rfl
  | _ => cases hread

variable {m : List RequestStep}

theorem clock_le (h : (requestMachine site).Reaches (RevocationRun site) c)
    (htrace : c.trace = l ++ y :: m) (hx : x ∈ l) {now now' : Nat} (hnow : clock x = some now)
    (hnow' : clock y = some now') : now ≤ now' := by
  obtain ⟨d, answer, n, k, -, hd, -, hG, -, hserve⟩ := Service.access_of_reaches h htrace
  have hle : now ≤ answer.moment := hG.2.1 x (hd ▸ hx) now hnow
  obtain ⟨τ, a, r, s, t⟩ := y
  cases a with
  | moment =>
    simp only [service, Option.some.injEq] at hserve
    obtain ⟨-, rfl⟩ := hserve
    cases hnow'
    exact hle
  | _ => cases hnow'

variable {answer : Answer Nat Draw} {value : List Row}
  {k : Act.Reply Effect.Reply (.putIf w e current value : RequestAct) → Prog Response}

theorem changed_of_step (hc : (requestMachine site).Reaches (RevocationRun site) c)
    {r : Act.Reply Effect.Reply (.putIf w e current value : RequestAct)}
    (hτ : c.clients[τ]? = some (n, .act (.putIf w e current value) k))
    (hG : RevocationRun site c (.step τ answer))
    (hserve : (service serveEffect).serve τ (.putIf w e current value) answer c.state = some (t, r))
    (hrev : t.doc.rev ≠ c.state.doc.rev) :
    Changed site c.trace ⟨τ, .putIf w e current value, r, c.state, t⟩ w.change e := by
  obtain ⟨change, redeems⟩ := w
  have hstep : (requestMachine site).step c (.step τ answer) = some ⟨t, c.clients.set τ (n, k r),
      c.trace ++ [⟨τ, .putIf ⟨change, redeems⟩ e current value, r, c.state, t⟩]⟩ := by
    simp only [requestMachine, Service.machine, Service.step, hτ, hserve]
  have hnext := hc.step hG hstep
  have hregistry := registry_of_reaches rotates_of_run hc
  have hknows := ((Service.kept_of_reaches
    (P := fun _ => Knows site) known_code hc).spec τ n _ hτ).1
  have hx := written_of_requests hnext _ (mem_append_right _ mem_cons_self)
  obtain ⟨base, -, hfrom, hrows⟩ := rows_of_written hx rfl hrev
  -- the read before the write was answered
  have hbase : base = loaded c.state.doc.value := by
    refine hfrom.resolve_right ?_
    rintro rfl
    obtain ⟨-, τ', l0, s, u, hl, -⟩ := hknows.computed
    have hmem : (⟨τ', .get, none, s, s⟩ : RequestStep) ∈ own τ c.trace := by
      rw [hl]
      exact mem_append_right _ mem_cons_self
    obtain ⟨l, m, htrace⟩ := append_of_mem (mem_own.mp hmem).1
    obtain ⟨d, answer', n', k', -, -, -, hG', -, hserve'⟩ := Service.access_of_reaches hc htrace
    have hanswered : answer'.fault = .answered := hG'.1
    simp only [service, hanswered] at hserve'
    cases hserve'
  refine {
    registry := hregistry
    next := registry_of_reaches rotates_of_run hnext
    act := ⟨redeems, current, value, rfl⟩
    rev := hrev
    rest := (serve_putIf hserve).1
    rows := hbase ▸ hrows
    create := ?_
    rotate := ?_ }
  · rintro row rfl
    obtain ⟨hrevoked, claims, hsid, hfrom⟩ := hknows.creates row redeems e current value rfl
    have hfirst := hG.2.2.2.1
    simp only [FirstSight, Service.action, hτ] at hfirst
    refine ⟨?_, hfirst.1, hrevoked⟩
    rw [hsid]
    rcases hfrom with ⟨y, hy, hminted⟩ | ⟨⟨y, hy, hverified⟩, -, -⟩
    · exact .inl ⟨_, hregistry.mints y (mem_own.mp hy).1 none claims hminted, rfl, rfl⟩
    · exact hregistry.handed _ (hregistry.verifies y (mem_own.mp hy).1 claims hverified).1
  · rintro oldSid newSid newHash idle rfl
    obtain ⟨hsentinel, y, hy, claims, hminted, hsid⟩ :=
      hknows.rotates oldSid newSid newHash idle redeems e current value rfl
    exact ⟨hsentinel, _, hregistry.mints y (mem_own.mp hy).1 _ claims hminted, hsid, rfl⟩

inductive Ended (site : Site) (trace : List RequestStep) (s : Shared) (L : String) : Prop where
  | held (row : Row) (mem : row ∈ s.doc.value) (sentinel : row.isSentinel = false)
      (login : login trace row.sid = L) (revoked : row.revoked = true)
  | dropped (none : ∀ row ∈ s.doc.value, row.isSentinel = false → Sessions.login trace row.sid ≠ L)
      (l m : List RequestStep) (x y : RequestStep) (split : trace = l ++ x :: m)
      (root : ∃ p ∈ x.after.rest.issued, p.claims.sid = L) (row : Row) (mem : row ∈ touched site x)
      (sentinel : row.isSentinel = false) (login : Sessions.login trace row.sid = L)
      (registered : Registered trace s row.sid) (revoked : row.revoked = true) (e : Nat)
        (clock : y ∈ l)
      (now : Sessions.clock y = some e)
      (old : ∀ p ∈ s.rest.issued, Registered trace s p.claims.sid →
        Sessions.login trace p.claims.sid = L → issuedBeforePruneGrace p.claims e = true)

def Bounded (site : Site) (trace : List RequestStep) (x : RequestStep) (change : Change) (e : Nat) :
    Prop :=
  ∀ row ∈ change.edit site e (loaded x.before.doc.value),
    row ∈ bound e (change.edit site e (loaded x.before.doc.value)) ∨
      row.isSentinel = false ∧ (row.revoked = true → ∀ p ∈ x.before.rest.issued,
        login (trace ++ [x]) p.claims.sid = login (trace ++ [x]) row.sid →
          issuedBeforePruneGrace p.claims e = true)

section Steps

variable {trace : List RequestStep} {x y : RequestStep} {change : Change} {e : Nat} {L : String}

theorem ended_of_edited (h : Changed site trace x change e)
    (hbounded : Bounded site trace x change e)
    (hy : y ∈ trace) (hclock : clock y = some e) {row : Row}
    (hrow : row ∈ change.edit site e (loaded x.before.doc.value)) (hsen : row.isSentinel = false)
    (hrevoked : row.revoked = true) :
    Ended site (trace ++ [x]) x.after (login (trace ++ [x]) row.sid) := by
  by_cases hmem : row ∈ bound e (change.edit site e (loaded x.before.doc.value))
  · exact .held row (h.rows ▸ hmem) hsen rfl hrevoked
  obtain ⟨-, hold⟩ := (hbounded row hrow).resolve_left hmem
  have hreg := h.registered hrow hsen
  obtain ⟨redeems, current, value, hact⟩ := h.act
  refine .dropped ?_ trace [] x y rfl (h.next.rooted _ hreg) row ?_ hsen rfl hreg hrevoked e hy
    hclock ?_
  · intro row' hrow' hsen' hlogin
    rw [h.rows] at hrow'
    have heq := h.unique ((bound_subperm e _).subset hrow') hrow hsen' hsen hlogin
    exact hmem (heq ▸ hrow')
  · unfold touched
    simp only [hact, ne_eq, h.rev, not_false_eq_true, if_true]
    exact mem_append_right _ hrow
  · intro p hp _ hlogin
    rw [h.rest] at hp
    exact hold hrevoked p hp hlogin

theorem ended_of_changed (hended : Ended site trace x.before L) (h : Changed site trace x change e)
    (hbounded : Bounded site trace x change e) (hy : y ∈ trace) (hclock : clock y = some e)
    (hcreated : ∀ row, change = .create row → login trace row.sid ≠ L) :
    Ended site (trace ++ [x]) x.after L := by
  cases hended with
  | held row hrow hsen hlogin hrevoked =>
    have hstored := h.registry.stored row hrow hsen
    obtain ⟨row', hrow', hsen', hlogin', -, hrevoked', -⟩ := h.mem_of_mem hrow
      (h.registry.named_of_registered hstored.1).1
      fun created hchange heq => hcreated created hchange (heq ▸ hlogin)
    have hend := ended_of_edited h hbounded hy hclock hrow' (hsen'.trans hsen) (hrevoked' hrevoked)
    rw [hlogin' hsen, hlogin] at hend
    exact hend
  | dropped hnone l m x0 y0 hsplit hroot row hrow hsen hlogin hreg hrevoked e0 hy0 hnow hold =>
    have hfrom : ∀ r ∈ x.before.doc.value, r.isSentinel = false → login trace r.sid ≠ L := hnone
    refine .dropped ?_ l (m ++ [x]) x0 y0 ?_ hroot row hrow hsen ?_ ?_ hrevoked e0 hy0 hnow ?_
    · intro row' hrow' hsen' hlogin'
      rw [h.rows] at hrow'
      rcases h.of_mem ((bound_subperm e _).subset hrow') hsen' with
        hcreate | ⟨r, hr, hsenr, heq, -⟩
      · rw [h.login_old (h.create row' hcreate).1] at hlogin'
        exact hcreated row' hcreate hlogin'
      · exact hfrom r hr hsenr (heq.symm.trans hlogin')
    · rw [hsplit, append_assoc, cons_append]
    · rw [h.login_old hreg]
      exact hlogin
    · rcases hreg with ⟨p, hp, hp'⟩ | hmem
      · exact .inl ⟨p, h.rest ▸ hp, hp'⟩
      · refine .inr ?_
        rw [rotations_snoc, map_append]
        exact mem_append_left _ hmem
    · intro p hp hregp hloginp
      rw [h.rest] at hp
      rcases h.of_registered hregp with hregp' | ⟨r, hr, hsenr, heq⟩
      · rw [h.login_old hregp'] at hloginp
        exact hold p hp hregp' hloginp
      · exact absurd (heq.symm.trans hloginp) (hfrom r hr hsenr)

theorem ended_of_same (hended : Ended site trace x.before L) (hregistry : Registry trace x.before)
    (hdoc : x.after.doc = x.before.doc) (hrotation : rotation x = none)
    (hissued : ∀ p ∈ x.before.rest.issued, p ∈ x.after.rest.issued)
    (hfresh : ∀ p ∈ x.after.rest.issued, p ∈ x.before.rest.issued ∨
      ∀ q ∈ x.before.rest.issued, q.claims.sid ≠ p.claims.sid)
    (hroot : ∀ z ∈ trace, ∀ p ∈ z.after.rest.issued, p ∈ x.before.rest.issued) :
    Ended site (trace ++ [x]) x.after L := by
  cases hended with
  | held row hrow hsen hlogin hrevoked =>
    exact .held row (hdoc ▸ hrow) hsen (by rw [login_of_none hrotation]; exact hlogin) hrevoked
  | dropped hnone l m x0 y0 hsplit hroot0 row hrow hsen hlogin hreg hrevoked e0 hy0 hnow hold =>
    refine .dropped ?_ l (m ++ [x]) x0 y0 ?_ hroot0 row hrow hsen ?_ ?_ hrevoked e0 hy0 hnow ?_
    · intro row' hrow' hsen'
      rw [hdoc] at hrow'
      rw [login_of_none hrotation]
      exact hnone row' hrow' hsen'
    · rw [hsplit, append_assoc, cons_append]
    · rw [login_of_none hrotation]
      exact hlogin
    · rw [registered_of_none hrotation]
      rcases hreg with ⟨p, hp, hp'⟩ | hmem
      · exact .inl ⟨p, hissued p hp, hp'⟩
      · exact .inr hmem
    · intro p hp hregp hloginp
      rw [login_of_none hrotation] at hloginp
      rw [registered_of_none hrotation] at hregp
      rcases hfresh p hp with hp | hnew
      · refine hold p hp ?_ hloginp
        rcases hregp with ⟨q, hq, horigin, hname⟩ | hmem
        · rcases hfresh q hq with hq | hnew
          · exact .inl ⟨q, hq, horigin, hname⟩
          · exact absurd hname.symm (hnew p hp)
        · exact .inr hmem
      · -- a token minted just now is of no login that has ended
        have hself : login trace p.claims.sid = p.claims.sid := by
          refine follow_of_notMem ?_
          rintro ⟨oldSid, newSid⟩ hlink heq
          obtain ⟨-, q, hq, hname, -⟩ := hregistry.links _ _ hlink
          exact hnew q hq (hname.trans heq.symm)
        obtain ⟨q, hq, hname⟩ := hroot0
        have hq' := hroot x0 (by rw [hsplit]; exact mem_append_right _ mem_cons_self) q hq
        exact absurd (hname.trans (hloginp.symm.trans hself)) (hnew q hq')

end Steps

variable {a : RequestAct} {r : Act.Reply Effect.Reply a}

theorem issued_of_serve (h : (service serveEffect).serve τ a answer s = some (t, r)) :
    (∀ p ∈ s.rest.issued, p ∈ t.rest.issued) ∧
    (∀ p ∈ t.rest.issued, p ∈ s.rest.issued ∨ ∀ q ∈ s.rest.issued, q.claims.sid ≠ p.claims.sid) ∧
    ∀ origin claims, minted ⟨τ, a, r, s, t⟩ = some (origin, claims) →
      ∀ q ∈ s.rest.issued, q.claims.sid ≠ claims.sid := by
  have hkeep : t.rest.issued = s.rest.issued → minted ⟨τ, a, r, s, t⟩ = none →
      (∀ p ∈ s.rest.issued, p ∈ t.rest.issued) ∧
      (∀ p ∈ t.rest.issued, p ∈ s.rest.issued ∨ ∀ q ∈ s.rest.issued, q.claims.sid ≠ p.claims.sid) ∧
      ∀ origin claims, minted ⟨τ, a, r, s, t⟩ = some (origin, claims) →
        ∀ q ∈ s.rest.issued, q.claims.sid ≠ claims.sid := by
    intro hissued hminted
    rw [hissued, hminted]
    exact ⟨fun p hp => hp, fun p hp => .inl hp, by simp⟩
  cases a with
  | get =>
    rw [(serve_get h).1] at hkeep ⊢
    exact hkeep rfl rfl
  | moment =>
    rw [serve_moment h] at hkeep ⊢
    exact hkeep rfl rfl
  | putIf w e current value => exact hkeep (congrArg Tokens.issued (serve_putIf h).1) rfl
  | put value =>
    have hrest : t.rest = s.rest := by
      simp only [service] at h
      split at h
      · cases h
        rfl
      · cases h
        rfl
      · cases h
        rfl
    exact hkeep (congrArg Tokens.issued hrest) rfl
  | other x =>
    cases x with
    | draw | allow claims | hand claims presented => cases h; exact hkeep rfl rfl
    | verify claims =>
      cases h
      exact hkeep rfl rfl
    | mint username rememberSeconds origin =>
      simp only [service, serveEffect] at h
      split at h
      · cases h
        exact hkeep rfl rfl
      · rename_i claims _
        split at h
        · cases h
        · rename_i hfresh
          rw [not_or, not_or] at hfresh
          cases h
          have hnew : ∀ q ∈ s.rest.issued, q.claims.sid ≠ claims.sid := by
            intro q hq heq
            exact hfresh.2.2 (any_eq_true.mpr ⟨q, hq, by simpa using heq⟩)
          refine ⟨fun p hp => mem_append_left _ hp, fun p hp => ?_, ?_⟩
          · rcases mem_append.mp hp with hp | hp
            · exact .inl hp
            · rw [mem_singleton.mp hp]
              exact .inr hnew
          · rintro _ _ ⟨⟩
            exact hnew

theorem issued_of_reaches (h : (requestMachine site).Reaches G c) :
    ∀ x ∈ c.trace, ∀ p ∈ x.after.rest.issued, p ∈ c.state.rest.issued := by
  refine Service.trace_induction (P := fun _ => Knows site) (I := fun trace s => ∀ x ∈ trace,
    ∀ p ∈ x.after.rest.issued, p ∈ s.rest.issued) known_code ?_ ?_ h
  · intro s _ x hx
    exact absurd hx not_mem_nil
  · intro c τ answer n a k t r hc hI hτ hknows hG hserve x hx p hp
    rcases mem_append.mp hx with hx | hx
    · exact (issued_of_serve hserve).1 p (hI x hx p hp)
    · rw [mem_singleton.mp hx] at hp
      exact hp

theorem issued_of_later (h : (requestMachine site).Reaches G c) (htrace : c.trace = l ++ x :: m)
    (hy : y ∈ m) : ∀ p ∈ x.after.rest.issued, p ∈ y.before.rest.issued := by
  obtain ⟨m1, m2, rfl⟩ := append_of_mem hy
  obtain ⟨d, answer, n, k, hd, hdtrace, hstate, -, -, -⟩ :=
    Service.access_of_reaches (l := l ++ x :: m1) (m := m2) (x := y) h (by rw [htrace]; simp)
  have hx : x ∈ d.trace := by
    rw [hdtrace]
    exact mem_append_right _ mem_cons_self
  exact hstate ▸ issued_of_reaches hd x hx

variable {claims : Claims}

theorem fresh_of_minted (h : (requestMachine site).Reaches G c) (hx : x ∈ c.trace)
    {origin : Option String} (hminted : minted x = some (origin, claims)) :
    ∀ q ∈ x.before.rest.issued, q.claims.sid ≠ claims.sid := by
  obtain ⟨l, m, htrace⟩ := append_of_mem hx
  obtain ⟨d, answer, n, k, -, -, -, -, -, hserve⟩ := Service.access_of_reaches h htrace
  exact (issued_of_serve hserve).2.2 origin claims hminted

theorem login_of_minted (h : Registry trace s)
    (hissued : (⟨claims, none⟩ : Issued) ∈ s.rest.issued) :
    login trace claims.sid = claims.sid := by
  refine follow_of_notMem ?_
  rintro ⟨oldSid, newSid⟩ hlink heq
  obtain ⟨-, p, hp, hname, horigin⟩ := h.links _ _ hlink
  have hsame : p = ⟨claims, none⟩ :=
    inj_on_of_nodup_map h.nodup hp hissued (hname.trans heq.symm)
  rw [hsame] at horigin
  cases horigin

/-! ### A login that is over stays over -/

theorem since_or_own (τ : Nat) (l m : List RequestStep) (x : RequestStep) :
    x ∈ since τ (l ++ x :: m) ∨ own τ (l ++ x :: m) = own τ m := by
  unfold since own
  induction l with
  | nil =>
    by_cases hx : x.thread = τ
    · simp [hx]
    · simp [hx]
  | cons z l ih =>
    by_cases hz : z.thread = τ
    · simp [hz]
    · simpa [hz] using ih

theorem bounded_of_step (hτ : c.clients[τ]? = some (n, .act (.putIf w e current value) k))
    (hG : RevocationRun site c (.step τ answer)) (hpass : c.state.doc.rev = revOf current)
    (hx : x.before = c.state) (h : Changed site c.trace x w.change e) :
    Bounded site c.trace x w.change e := by
  have hkept := hG.2.2.2.2
  simp only [Kept, Service.action, hτ] at hkept
  intro row hrow
  rw [hx] at hrow ⊢
  rw [h.login_eq, hx]
  exact hkept hpass row hrow

theorem clock_of_computed
    (h : Computed [] (apply site) (own τ trace) (.putIf w e current value : RequestAct)) :
    ∃ y ∈ trace, clock y = some e := by
  obtain ⟨-, τ', l0, s, u, hl, -⟩ := h
  have hmem : (⟨τ', .moment, e, u, u⟩ : RequestStep) ∈ own τ trace := by
    rw [hl]
    exact mem_append_right _ (mem_cons_of_mem _ mem_cons_self)
  exact ⟨_, (mem_own.mp hmem).1, rfl⟩

variable {row : Row} {L : String}

theorem created_of_ended (hc : (requestMachine site).Reaches (RevocationRun site) c)
    {redeems : Option String}
    {k : Act.Reply Effect.Reply (.putIf ⟨.create row, redeems⟩ e current value : RequestAct) →
      Prog Response}
    (hτ : c.clients[τ]? = some (n, .act (.putIf ⟨.create row, redeems⟩ e current value) k))
    (hG : RevocationRun site c (.step τ answer)) (hpass : c.state.doc.rev = revOf current)
    (hended : Ended site c.trace c.state L) : login c.trace row.sid ≠ L := by
  intro hlogin
  have hfirst := hG.2.2.2.1
  simp only [FirstSight, Service.action, hτ] at hfirst
  obtain ⟨hstate, hsince⟩ := hfirst.2 hpass
  have hregistry := registry_of_reaches rotates_of_run hc
  cases hended with
  | held row0 hrow0 hsen0 hlogin0 hrevoked0 =>
    rw [hstate row0 hrow0 hsen0 (hlogin0.trans hlogin.symm)] at hrevoked0
    cases hrevoked0
  | dropped hnone l m x0 y0 hsplit hroot row0 hrow0 hsen0 hlogin0 hreg0 hrevoked0 e0 hy0
      hnow hold =>
    have hsplit' := since_or_own τ l m x0
    rw [← hsplit] at hsplit'
    rcases hsplit' with hin | hown
    · -- the request began before the session was revoked
      rw [hsince x0 hin row0 hrow0 hsen0 (hlogin0.trans hlogin.symm)] at hrevoked0
      cases hrevoked0
    have hknows :=
      ((Service.kept_of_reaches (P := fun _ => Knows site) known_code hc).spec τ n _ hτ).1
    obtain ⟨-, claims, hsid, hfrom⟩ := hknows.creates row redeems e current value rfl
    rw [hsid] at hlogin
    rcases hfrom with ⟨y, hy, hminted⟩ | ⟨⟨y, hy, hverified⟩, -, z, hz, now, hnow', hyoung⟩
    · -- a sign-in minted the session after the login of another had ended
      have hissued := hregistry.mints y (mem_own.mp hy).1 none claims hminted
      rw [login_of_minted hregistry hissued] at hlogin
      obtain ⟨p, hp, hname⟩ := hroot
      rw [hown] at hy
      refine fresh_of_minted hc ?_ hminted p ?_ (hname.trans hlogin.symm)
      · rw [hsplit]
        exact mem_append_right _ (mem_cons_of_mem _ (mem_own.mp hy).1)
      · exact issued_of_later hc hsplit (mem_own.mp hy).1 p hp
    · -- the token was young after all tokens of the login had become too old
      obtain ⟨hhanded, p, hp, hclaims⟩ := hregistry.verifies y (mem_own.mp hy).1 claims hverified
      have hreg := hregistry.handed claims.sid hhanded
      rw [← hclaims] at hlogin hreg hyoung
      have holder := hold p hp hreg hlogin
      rw [hown] at hz
      obtain ⟨m1, m2, rfl⟩ := append_of_mem (mem_own.mp hz).1
      have hle : e0 ≤ now := clock_le (l := l ++ x0 :: m1) (m := m2) (x := y0) (y := z) hc
        (by rw [hsplit]; simp) (mem_append_left _ hy0) hnow hnow'
      rw [issuedBeforePruneGrace_mono hle holder] at hyoung
      cases hyoung

structure Advances (site : Site) (trace : List RequestStep) (x : RequestStep) : Prop where
  ended : ∀ L, Ended site trace x.before L → Ended site (trace ++ [x]) x.after L
  revoked : ∀ row ∈ touched site x, row.isSentinel = false → row.revoked = true →
    Registered (trace ++ [x]) x.after row.sid ∧
      Ended site (trace ++ [x]) x.after (login (trace ++ [x]) row.sid)
  registered : ∀ sid, Registered trace x.before sid → Registered (trace ++ [x]) x.after sid ∧
    login (trace ++ [x]) sid = login trace sid
  version : ∀ username,
    tvFrom site x.before.doc.value username ≤ tvFrom site x.after.doc.value username

theorem tvFrom_of_mem {username : String} (hnodup : (rows.map Row.sid).Nodup) (hrow : row ∈ rows)
    (hsid : row.sid = tvKey site username) : tvFrom site rows username = row.tokenVersion := by
  unfold tvFrom
  cases hfind : rows.find? fun r => r.sid == tvKey site username with
  | none => exact absurd (by simpa using hsid) (find?_eq_none.mp hfind row hrow)
  | some r =>
    have hr : r.sid = tvKey site username := by simpa using find?_some hfind
    have hsame := inj_on_of_nodup_map hnodup (mem_of_find?_eq_some hfind) hrow
      (hr.trans hsid.symm)
    rw [hsame]
    rfl

theorem tvKey_ne (site : Site) (username : String) : tvKey site username ≠ "" := by
  intro h
  have hsentinel := isSentinel_tvKey site username
  rw [h] at hsentinel
  exact absurd hsentinel (by decide)

variable {change : Change}

theorem Changed.version (h : Changed site trace x change e)
    (hbounded : Bounded site trace x change e) (username : String) :
    tvFrom site x.before.doc.value username ≤ tvFrom site x.after.doc.value username := by
  cases hfind : x.before.doc.value.find? fun r => r.sid == tvKey site username with
  | none =>
    unfold tvFrom
    rw [hfind]
    exact Nat.zero_le _
  | some r =>
    have hr := mem_of_find?_eq_some hfind
    have hsid : r.sid = tvKey site username := by simpa using find?_some hfind
    have hsen : r.isSentinel = true := by rw [Row.isSentinel, hsid, isSentinel_tvKey]
    obtain ⟨row, hrow, hsen', -, heq, -, hversion⟩ := h.mem_of_mem hr
      (hsid ▸ tvKey_ne site username) fun created hchange heq => by
        have hname := (h.registry.named_of_registered (h.create created hchange).1).2
        rw [← heq] at hname
        rw [Row.isSentinel, hname] at hsen
        cases hsen
    have hkept : row ∈ x.after.doc.value := by
      rw [h.rows]
      rcases hbounded row hrow with hmem | ⟨hnot, -⟩
      · exact hmem
      · rw [hsen', hsen] at hnot
        cases hnot
    rw [tvFrom_of_mem h.registry.distinct hr hsid,
      tvFrom_of_mem h.next.distinct hkept ((heq hsen).trans hsid)]
    exact hversion

theorem advances_of_same (hregistry : Registry trace x.before) (hdoc : x.after.doc = x.before.doc)
    (hrotation : rotation x = none) (htouched : touched site x = x.before.doc.value)
    (hissued : ∀ p ∈ x.before.rest.issued, p ∈ x.after.rest.issued)
    (hfresh : ∀ p ∈ x.after.rest.issued, p ∈ x.before.rest.issued ∨
      ∀ q ∈ x.before.rest.issued, q.claims.sid ≠ p.claims.sid)
    (hroot : ∀ z ∈ trace, ∀ p ∈ z.after.rest.issued, p ∈ x.before.rest.issued) :
    Advances site trace x := by
  have hregistered : ∀ sid, Registered trace x.before sid →
      Registered (trace ++ [x]) x.after sid := by
    rintro sid (⟨p, hp, hp'⟩ | hmem)
    · exact .inl ⟨p, hissued p hp, hp'⟩
    · exact (registered_of_none hrotation).mpr (.inr hmem)
  constructor
  · intro L hended
    exact ended_of_same hended hregistry hdoc hrotation hissued hfresh hroot
  · intro row hrow hsen hrevoked
    rw [htouched] at hrow
    refine ⟨hregistered _ (hregistry.stored row hrow hsen).1, ?_⟩
    exact .held row (hdoc ▸ hrow) hsen rfl hrevoked
  · intro sid hsid
    exact ⟨hregistered sid hsid, by rw [login_of_none hrotation]⟩
  · intro username
    rw [hdoc]

theorem advances_of_changed (h : Changed site trace x change e)
    (hbounded : Bounded site trace x change e) (hy : y ∈ trace) (hclock : clock y = some e)
    (hcreated : ∀ L, Ended site trace x.before L → ∀ row, change = .create row →
      login trace row.sid ≠ L) : Advances site trace x := by
  have hregistered : ∀ sid, Registered trace x.before sid →
      Registered (trace ++ [x]) x.after sid := by
    rintro sid (⟨p, hp, hp'⟩ | hmem)
    · exact .inl ⟨p, h.rest ▸ hp, hp'⟩
    · refine .inr ?_
      rw [rotations_snoc, map_append]
      exact mem_append_left _ hmem
  have hended : ∀ L, Ended site trace x.before L → Ended site (trace ++ [x]) x.after L :=
    fun L hL => ended_of_changed hL h hbounded hy hclock (hcreated L hL)
  constructor
  · exact hended
  · intro row hrow hsen hrevoked
    obtain ⟨redeems, current, value, hact⟩ := h.act
    unfold touched at hrow
    simp only [hact, ne_eq, h.rev, not_false_eq_true, if_true] at hrow
    rcases mem_append.mp hrow with hrow | hrow
    · have hstored := (h.registry.stored row hrow hsen).1
      refine ⟨hregistered _ hstored, ?_⟩
      rw [h.login_old hstored]
      exact hended _ (.held row hrow hsen rfl hrevoked)
    · exact ⟨h.registered hrow hsen, ended_of_edited h hbounded hy hclock hrow hsen hrevoked⟩
  · intro sid hsid
    exact ⟨hregistered sid hsid, h.login_old hsid⟩
  · exact h.version hbounded

theorem advances_of_step (hc : (requestMachine site).Reaches (RevocationRun site) c)
    {k : Act.Reply Effect.Reply a → Prog Response} (hτ : c.clients[τ]? = some (n, .act a k))
    (hG : RevocationRun site c (.step τ answer))
    (hserve : (service serveEffect).serve τ a answer c.state = some (t, r)) :
    Advances site c.trace ⟨τ, a, r, c.state, t⟩ := by
  have hknows := ((Service.kept_of_reaches
    (P := fun _ => Knows site) known_code hc).spec τ n _ hτ).1
  have hsame : t.doc = c.state.doc → rotation ⟨τ, a, r, c.state, t⟩ = none →
      touched site ⟨τ, a, r, c.state, t⟩ = c.state.doc.value →
      Advances site c.trace ⟨τ, a, r, c.state, t⟩ := fun hdoc hrotation htouched =>
    advances_of_same (registry_of_reaches rotates_of_run hc) hdoc hrotation htouched
      (issued_of_serve hserve).1 (issued_of_serve hserve).2.1 (issued_of_reaches hc)
  have htouched : ∀ rows : List Row, rows ++ [] = rows := append_nil
  cases a with
  | get => exact hsame (congrArg State.doc (serve_get hserve).1) rfl (htouched _)
  | moment => exact hsame (congrArg State.doc (serve_moment hserve)) rfl (htouched _)
  | put value => exact absurd rfl (hknows.noPut value)
  | other x => exact hsame (leavesDocument τ x _ _ _ _ hserve) rfl (htouched _)
  | putIf w e current value =>
    rcases (serve_putIf hserve).2 with hdoc | ⟨hpass, hdoc⟩
    · have hrev : t.doc.rev = c.state.doc.rev := congrArg Document.rev hdoc
      refine hsame hdoc ?_ ?_
      · obtain ⟨change, redeems⟩ := w
        cases change with
        | rekeyAndRotate oldSid newSid newHash idle => simp [rotation, hrev]
        | _ => rfl
      · simp [touched, hrev]
    · have hrev : t.doc.rev ≠ c.state.doc.rev := by
        rw [hdoc, hpass]
        exact Nat.succ_ne_self _
      have hchanged := changed_of_step hc hτ hG hserve hrev
      obtain ⟨y, hy, hclock⟩ := clock_of_computed hknows.computed
      refine advances_of_changed hchanged (bounded_of_step hτ hG hpass rfl hchanged) hy hclock ?_
      obtain ⟨change, redeems⟩ := w
      rintro L hended row rfl
      exact created_of_ended hc hτ hG hpass hended

/-- What the state `s` after `trace` has kept since the access `x` after `l`. -/
structure Since (site : Site) (l : List RequestStep) (x : RequestStep) (trace : List RequestStep)
    (s : Shared) : Prop where
  revoked : ∀ row ∈ touched site x, row.isSentinel = false → row.revoked = true →
    Registered (l ++ [x]) x.after row.sid ∧ Ended site trace s (login trace row.sid)
  before : ∀ sid, Registered l x.before sid → Registered trace s sid ∧
    login trace sid = login l sid
  after : ∀ sid, Registered (l ++ [x]) x.after sid → Registered trace s sid ∧
    login trace sid = login (l ++ [x]) sid
  version : ∀ username, tvFrom site x.after.doc.value username ≤ tvFrom site s.doc.value username

theorem Since.step {z : RequestStep}
    (h : Since site l x trace z.before) (hz : Advances site trace z) :
    Since site l x (trace ++ [z]) z.after := by
  constructor
  · intro row hrow hsen hrevoked
    obtain ⟨hreg, hended⟩ := h.revoked row hrow hsen hrevoked
    refine ⟨hreg, ?_⟩
    rw [(hz.registered _ (h.after _ hreg).1).2]
    exact hz.ended _ hended
  · intro sid hsid
    obtain ⟨hreg, hlogin⟩ := h.before sid hsid
    obtain ⟨hreg', hlogin'⟩ := hz.registered sid hreg
    exact ⟨hreg', hlogin'.trans hlogin⟩
  · intro sid hsid
    obtain ⟨hreg, hlogin⟩ := h.after sid hsid
    obtain ⟨hreg', hlogin'⟩ := hz.registered sid hreg
    exact ⟨hreg', hlogin'.trans hlogin⟩
  · intro username
    exact (h.version username).trans (hz.version username)

theorem since_of_reaches (h : (requestMachine site).Reaches (RevocationRun site) c) :
    ∀ l x m, c.trace = l ++ x :: m → Since site l x c.trace c.state := by
  refine Service.trace_induction (P := fun _ => Knows site) (I := fun trace s => ∀ l x m,
    trace = l ++ x :: m → Since site l x trace s) known_code ?_ ?_ h
  · intro s _ l x m hsplit
    exact absurd hsplit (by simp)
  · intro c τ answer n a k t r hc hI hτ _ hG hserve l x m hsplit
    have hz := advances_of_step hc hτ hG hserve
    rcases split_concat hsplit with ⟨rfl, rfl⟩ | ⟨m', rfl, htrace⟩
    · obtain ⟨rfl, -⟩ := append_inj' hsplit rfl
      exact ⟨hz.revoked, hz.registered, fun sid hsid => ⟨hsid, rfl⟩, fun _ => Nat.le_refl _⟩
    · exact (hI l x m' htrace).step hz

theorem Ended.revoked (h : Ended site trace s L) (hregistry : Registry trace s)
    (hrow : row ∈ s.doc.value) (hsen : row.isSentinel = false) (hlogin : login trace row.sid = L) :
    row.revoked = true := by
  cases h with
  | held row0 hrow0 hsen0 hlogin0 hrevoked0 =>
    have hstored := hregistry.stored row hrow hsen
    have hstored0 := hregistry.stored row0 hrow0 hsen0
    have hsid := hregistry.heads _ _ hstored.1 hstored0.1 hstored.2 hstored0.2
      (hlogin.trans hlogin0.symm)
    rw [inj_on_of_nodup_map hregistry.distinct hrow hrow0 hsid]
    exact hrevoked0
  | dropped hnone l m x y _ _ row0 _ _ _ _ _ e _ _ _ => exact absurd hlogin (hnone row hrow hsen)

theorem Ended.stored (h : Ended site trace s (login trace sid)) (hregistry : Registry trace s)
    (hreg : Registered trace s sid) (hlast : sid ∉ superseded trace)
    (hyoung : ∃ p ∈ s.rest.issued, p.claims.sid = sid ∧
      ∀ y ∈ trace, ∀ e, clock y = some e → issuedBeforePruneGrace p.claims e = false) :
    ∃ row ∈ s.doc.value, row.sid = sid := by
  cases h with
  | held row0 hrow0 hsen0 hlogin0 hrevoked0 =>
    have hstored0 := hregistry.stored row0 hrow0 hsen0
    exact ⟨row0, hrow0, hregistry.heads _ _ hstored0.1 hreg hstored0.2 hlast hlogin0⟩
  | dropped hnone l m x y hsplit _ row0 _ _ _ _ _ e hy hnow hold =>
    obtain ⟨p, hp, rfl, hyoung⟩ := hyoung
    have holder := hold p hp hreg rfl
    rw [hyoung y (by rw [hsplit]; exact mem_append_left _ hy) e hnow] at holder
    cases holder

theorem act_of_passed (h : passed x = some claims) : x.act = .other (.allow claims) := by
  unfold passed at h
  split at h
  · rename_i hact
    cases h
    exact hact
  · cases h

theorem not_ended_of_judged (h : (requestMachine site).Reaches (RevocationRun site) c)
    (hverified : ∃ v ∈ own τ c.trace, verified v = some claims)
    (hjudged : Judged (own τ c.trace) claims site) :
    ∃ a z b, c.trace = a ++ z :: b ∧ z.thread = τ ∧ Registered a z.before claims.sid ∧
      ¬ Ended site a z.before (login a claims.sid) := by
  have hregistry := registry_of_reaches rotates_of_run h
  obtain ⟨v, hv, hverified⟩ := hverified
  obtain ⟨-, q, hq, hclaims⟩ := hregistry.verifies v (mem_own.mp hv).1 claims hverified
  have hsentinel : isSentinel claims.sid = false := hclaims ▸ (hregistry.named q hq).2
  rcases hjudged.row with ⟨z, hz, rows, hread, row, hrow, hsid, hrevoked⟩ |
    ⟨l0, z, l1, rows, hown, hread, hmissing, ⟨v, hv, hverified⟩, ⟨u, hu, now, hnow, hyoung⟩, w,
      hw, hregisters⟩
  · -- it saw its row, and the row was not revoked
    obtain ⟨hz, hthread⟩ := mem_own.mp hz
    have hrows := rows_of_read h hz hread
    obtain ⟨a, b, htrace⟩ := append_of_mem hz
    obtain ⟨f, -, -, -, hf, hftrace, hfstate, -, -, -⟩ := Service.access_of_reaches h htrace
    have hfregistry := registry_of_reaches rotates_of_run hf
    rw [hftrace, hfstate] at hfregistry
    rw [hrows] at hrow
    have hsen : row.isSentinel = false := by rw [Row.isSentinel, hsid]; exact hsentinel
    refine ⟨a, z, b, htrace, hthread, hsid ▸ (hfregistry.stored row hrow hsen).1, fun hended => ?_⟩
    rw [hended.revoked hfregistry hrow hsen (by rw [hsid])] at hrevoked
    cases hrevoked
  · -- it saw no row, and its token was young enough to be registered
    obtain ⟨a, b, htrace, rfl, rfl⟩ := own_eq_append_cons hown
    have hthread : z.thread = τ := by
      have hz : z ∈ own τ c.trace := by
        rw [hown]
        exact mem_append_right _ mem_cons_self
      exact (mem_own.mp hz).2
    have hrows := rows_of_read h (by rw [htrace]; exact mem_append_right _ mem_cons_self) hread
    obtain ⟨f, -, -, -, hf, hftrace, hfstate, -, -, -⟩ := Service.access_of_reaches h htrace
    have hfregistry := registry_of_reaches rotates_of_run hf
    rw [hftrace, hfstate] at hfregistry
    obtain ⟨hhanded, p, hp, hclaims⟩ := hfregistry.verifies v (mem_own.mp hv).1 claims hverified
    have hreg := hfregistry.handed claims.sid hhanded
    refine ⟨a, z, b, htrace, hthread, hreg, fun hended => ?_⟩
    have hlast : claims.sid ∉ superseded a := by
      obtain ⟨row, e, current, value, hact, hsid, -⟩ := hregisters
      obtain ⟨b1, b2, rfl⟩ := append_of_mem (mem_own.mp hw).1
      obtain ⟨g, answer, n, k, -, hgtrace, -, hG, hτ, -⟩ := Service.access_of_reaches
        (l := a ++ z :: b1) (m := b2) (x := w) h (by rw [htrace]; simp)
      have hfirst := hG.2.2.2.1
      simp only [FirstSight, Service.action, hτ, hact] at hfirst
      intro hmem
      refine hfirst.1 ?_
      rw [hsid, hgtrace]
      unfold superseded rotations at hmem ⊢
      rw [filterMap_append, map_append]
      exact mem_append_left _ hmem
    obtain ⟨row, hrow, hsid⟩ := hended.stored hfregistry hreg hlast ⟨p, hp, by rw [hclaims], by
      intro y hy e hclock
      obtain ⟨b1, b2, rfl⟩ := append_of_mem (mem_own.mp hu).1
      have hle : e ≤ now := clock_le (l := a ++ z :: b1) (m := b2) (y := u) h
        (by rw [htrace]; simp) (mem_append_left _ hy) hclock hnow
      cases hearly : issuedBeforePruneGrace p.claims e with
      | false => rfl
      | true =>
        rw [hclaims] at hearly
        rw [issuedBeforePruneGrace_mono hle hearly] at hyoung
        cases hyoung⟩
    exact hmissing hsentinel row (hrows ▸ hrow) hsid

/-- **Revocation is final** in every run whose backend answers and whose clock does not go back,
if a refresh hands its token out only after its rotation took effect, no name that was re-keyed
away is registered again, no registration takes effect for a session that was revoked since its
request began, and bounding drops no sentinel and no revoked row while a token of its session
would be registered on first sight.  No request that begins after a session was revoked is passed
with a token of it, none with a token below the recorded version, and no recorded version
decreases. -/
theorem revocation_final (site : Site) {c : Requests}
    (h : (requestMachine site).Reaches (RevocationRun site) c) {l m : List RequestStep}
    {x : RequestStep} (htrace : c.trace = l ++ x :: m) :
    (∀ y ∈ m, ∀ claims, passed y = some claims → own y.thread (l ++ [x]) = [] →
      (∀ row ∈ touched site x, row.isSentinel = false → row.revoked = true →
        login c.trace claims.sid ≠ login c.trace row.sid) ∧
      tvFrom site x.after.doc.value claims.username ≤ claims.tv) ∧
    ∀ username, tvFrom site x.after.doc.value username ≤ tvFrom site c.state.doc.value
      username := by
  have hsince := since_of_reaches h l x m htrace
  refine ⟨?_, hsince.version⟩
  intro y hy claims hpassed hbegan
  have hact := act_of_passed hpassed
  obtain ⟨m1, m2, rfl⟩ := append_of_mem hy
  obtain ⟨d, answer, n, k, hd, hdtrace, hdstate, -, hτ, -⟩ := Service.access_of_reaches
    (l := l ++ x :: m1) (m := m2) (x := y) h (by rw [htrace]; simp)
  have hknows :=
    ((Service.kept_of_reaches (P := fun _ => Knows site) known_code hd).spec _ n _ hτ).1
  obtain ⟨hverified, hjudged⟩ := hknows.allows claims hact
  have hjudged : Judged (own y.thread d.trace) claims site := by
    obtain ⟨v, hv, hv'⟩ := hverified
    have hregistry := registry_of_reaches rotates_of_run hd
    obtain ⟨-, p, hp, hclaims⟩ := hregistry.verifies v (mem_own.mp hv).1 claims hv'
    exact hjudged (hclaims ▸ (hregistry.named p hp).1)
  -- the accesses of the request came after `x`
  have hlater : ∀ a z b, d.trace = a ++ z :: b → z.thread = y.thread →
      ∃ a', a = l ++ x :: a' := by
    intro a z b hsplit hthread
    rw [hdtrace, append_cons] at hsplit
    rcases append_eq_append_iff.mp hsplit with ⟨a', rfl, -⟩ | ⟨b', hlx, hb'⟩
    · exact ⟨a', by simp⟩
    · cases b' with
      | nil => exact ⟨[], by simpa using hlx.symm⟩
      | cons z' b' =>
        rw [cons_append] at hb'
        obtain ⟨rfl, -⟩ := List.cons.inj hb'
        have hz : z ∈ own y.thread (l ++ [x]) := by
          rw [hlx]
          exact mem_own.mpr ⟨mem_append_right _ mem_cons_self, hthread⟩
        rw [hbegan] at hz
        cases hz
  constructor
  · intro row hrow hsen hrevoked hlogin
    obtain ⟨a, z, b, hsplit, hthread, hreg, hended⟩ := not_ended_of_judged hd hverified hjudged
    obtain ⟨a', rfl⟩ := hlater a z b hsplit hthread
    obtain ⟨f, -, -, -, hf, hftrace, hfstate, -, -, -⟩ := Service.access_of_reaches hd hsplit
    have hfsince := since_of_reaches hf l x a' hftrace
    rw [hftrace, hfstate] at hfsince
    obtain ⟨hregrow, hend⟩ := hfsince.revoked row hrow hsen hrevoked
    have hwhole : c.trace = (l ++ x :: a') ++ z :: (b ++ y :: m2) := by
      calc c.trace = (l ++ x :: m1) ++ y :: m2 := by rw [htrace]; simp
        _ = ((l ++ x :: a') ++ z :: b) ++ y :: m2 := by rw [← hdtrace, hsplit]
        _ = (l ++ x :: a') ++ z :: (b ++ y :: m2) := by simp
    have hclaims := ((since_of_reaches h _ _ _ hwhole).before claims.sid hreg).2
    rw [← hclaims, hlogin, (hsince.after _ hregrow).2, ← (hfsince.after _ hregrow).2] at hended
    exact hended hend
  · obtain ⟨z, hz, rows, hread, hle⟩ := hjudged.version
    obtain ⟨hz, hthread⟩ := mem_own.mp hz
    rw [rows_of_read hd hz hread] at hle
    obtain ⟨a, b, hsplit⟩ := append_of_mem hz
    obtain ⟨a', rfl⟩ := hlater a z b hsplit hthread
    obtain ⟨f, -, -, -, hf, hftrace, hfstate, -, -, -⟩ := Service.access_of_reaches hd hsplit
    have hversion := (since_of_reaches hf l x a' hftrace).version claims.username
    rw [hfstate] at hversion
    exact hversion.trans hle

end Runs

/-- Enough for `RevocationRun`, evaluated: no session is re-keyed, and nothing is bounded away. -/
def revocationRun (c : Requests) (move : RequestMove) : Bool :=
  (match move with
    | .step _ answer => answer.fault == .answered &&
        c.trace.all fun x => (clock x).all (· ≤ answer.moment)
    | .start _ => true) &&
  match Service.action c move with
  | some (_, .other (.hand _ (some _))) => false
  | some (τ, .putIf w e _ _) =>
    (match w.change with
      | .create row => !(superseded c.trace).contains row.sid &&
          (c.state.doc.value ++ (since τ c.trace).flatMap (touched sampleSite)).all fun r =>
            r.isSentinel || login c.trace r.sid != login c.trace row.sid || !r.revoked
      | _ => true) &&
    (w.change.edit sampleSite e (loaded c.state.doc.value)).all
      (bound e (w.change.edit sampleSite e (loaded c.state.doc.value))).contains
  | _ => true

theorem revocationRun_iff {c : Requests} {move : RequestMove} (h : revocationRun c move = true) :
    RevocationRun sampleSite c move := by
  unfold revocationRun at h
  rw [Bool.and_eq_true] at h
  obtain ⟨hmove, haction⟩ := h
  have hmoved : Answered move ∧ Clocked c move := by
    cases move with
    | start n => exact ⟨trivial, trivial⟩
    | step τ answer =>
      rw [Bool.and_eq_true, beq_iff_eq, all_eq_true] at hmove
      refine ⟨hmove.1, fun x hx now hnow => ?_⟩
      have hle := hmove.2 x hx
      rw [hnow] at hle
      simpa using hle
  refine ⟨hmoved.1, hmoved.2, ?_⟩
  unfold Rotates FirstSight Kept
  cases hact : Service.action c move with
  | none => exact ⟨trivial, trivial, trivial⟩
  | some p =>
    obtain ⟨τ, a⟩ := p
    rw [hact] at haction
    cases a with
    | other x =>
      cases x with
      | hand claims presented =>
        cases presented with
        | none => exact ⟨trivial, trivial, trivial⟩
        | some presented => cases haction
      | _ => exact ⟨trivial, trivial, trivial⟩
    | putIf w e current value =>
      obtain ⟨change, redeems⟩ := w
      dsimp only at haction
      rw [Bool.and_eq_true, all_eq_true] at haction
      obtain ⟨hchange, hbound⟩ := haction
      have hkept : ∀ row ∈ change.edit sampleSite e (loaded c.state.doc.value),
          row ∈ bound e (change.edit sampleSite e (loaded c.state.doc.value)) :=
        fun row hrow => contains_iff_mem.mp (hbound row hrow)
      cases change with
      | create row =>
        dsimp only at hchange
        rw [Bool.and_eq_true, all_eq_true] at hchange
        obtain ⟨hnew, hunrevoked⟩ := hchange
        have hnew : row.sid ∉ superseded c.trace := by simpa using hnew
        have hall : ∀ rows : List Row, (∀ r ∈ rows, r ∈ c.state.doc.value ++
            (since τ c.trace).flatMap (touched sampleSite)) →
            Unrevoked c.trace row.sid rows := by
          intro rows hrows r hr hsen hlogin
          have hr' := hunrevoked r (hrows r hr)
          rw [hsen, hlogin] at hr'
          simpa using hr'
        refine ⟨fun _ => hnew, ⟨hnew, fun _ => ⟨hall _ ?_, fun y hy => hall _ ?_⟩⟩,
          fun _ row hrow => .inl (hkept row hrow)⟩
        · exact fun r hr => mem_append_left _ hr
        · exact fun r hr => mem_append_right _ (mem_flatMap.mpr ⟨y, hy, hr⟩)
      | _ => exact ⟨trivial, trivial, fun _ row hrow => .inl (hkept row hrow)⟩
    | _ => exact ⟨trivial, trivial, trivial⟩

/-- A later request of `sid` is passed, and the access finds or leaves a session of that login
revoked. -/
def passedAfter (sid : String) (l : List RequestStep) (x : RequestStep) (m : List RequestStep)
    (login : String → String) : Bool :=
  m.any (fun y => (passed y).any (fun claims => claims.sid == sid) &&
    (own y.thread (l ++ [x])).isEmpty) &&
  (touched sampleSite x).any fun row => !row.isSentinel && row.revoked && login row.sid
    == login "s0"

variable {l : List RequestStep} {x : RequestStep}

theorem passedAfter_iff {m : List RequestStep} {login : String → String}
    (h : passedAfter sid l x m login = true) :
    (∃ y ∈ m, ∃ claims, passed y = some claims ∧ claims.sid = sid ∧ own y.thread (l ++ [x]) = []) ∧
    ∃ row ∈ touched sampleSite x, row.isSentinel = false ∧ row.revoked = true ∧
      login row.sid = login "s0" := by
  unfold passedAfter at h
  simp only [Bool.and_eq_true, any_eq_true, Option.any_eq_true, beq_iff_eq, List.isEmpty_iff,
    Bool.not_eq_true'] at h
  obtain ⟨⟨y, hy, ⟨claims, hpassed, hsid⟩, hown⟩, row, hrow, ⟨hsen, hrevoked⟩, hlogin⟩ := h
  exact ⟨⟨y, hy, claims, hpassed, hsid, hown⟩, row, hrow, hsen, hrevoked, hlogin⟩

theorem split_of_getElem {i : Nat} (h : l[i]? = some x) : l = l.take i ++ x :: l.drop (i + 1) := by
  obtain ⟨hlt, rfl⟩ := List.getElem?_eq_some_iff.mp h
  rw [List.getElem_cons_drop, take_append_drop]

set_option maxRecDepth 10000 in
/-- A session is revoked, and a later one of the same user passed. -/
theorem revocation_final_of_two :
    ∃ c l x m, (requestMachine sampleSite).Reaches (RevocationRun sampleSite) c ∧
      c.trace = l ++ x :: m ∧
      (∃ y ∈ m, ∃ claims, passed y = some claims ∧ claims.sid = "s1" ∧
        own y.thread (l ++ [x]) = []) ∧
      (∃ row ∈ touched sampleSite x, row.isSentinel = false ∧ row.revoked = true ∧
        login c.trace row.sid = login c.trace "s0") ∧
      ∀ y ∈ m, ∀ claims, passed y = some claims → own y.thread (l ++ [x]) = [] →
        (∀ row ∈ touched sampleSite x, row.isSentinel = false → row.revoked = true →
          login c.trace claims.sid ≠ login c.trace row.sid) ∧
        tvFrom sampleSite x.after.doc.value claims.username ≤ claims.tv := by
  have hrun : (((requestMachine sampleSite).runChecked revocationRun ⟨⟨⟨[], 0⟩, ⟨[], []⟩⟩, [], []⟩
      ([.start (.signIn "alice" 0 "x$x:r0" {}), .start (.revoke "s0"),
        .start (.signIn "alice" 0 "x$x:r1" {}),
        .start (.evaluate ⟨"s1", "alice", 0, 1000, 2000, false⟩ {} false)] ++
        List.replicate 6 (accessWith 0 "s0" "") ++ List.replicate 3 (accessWith 1 "" "") ++
        List.replicate 6 (accessWith 2 "s1" "") ++ List.replicate 7 (accessWith 3 "" ""))).any
      fun c => c.trace[8]?.any fun x =>
        passedAfter "s1" (c.trace.take 8) x (c.trace.drop 9) (login c.trace)) = true := by
    decide
  obtain ⟨c, hc, hend⟩ := Machine.reaches_of_runChecked (fun _ _ => revocationRun_iff) start_empty
    hrun
  obtain ⟨x, hx, hend⟩ := (Option.any_eq_true _ _).mp hend
  obtain ⟨hpassed, hrevoked⟩ := passedAfter_iff hend
  have htrace := split_of_getElem hx
  exact ⟨c, _, x, _, hc, htrace, hpassed, hrevoked, (revocation_final sampleSite hc htrace).1⟩

set_option maxRecDepth 10000 in
/-- A session is re-keyed by a refresh and revoked under its new name; a request with the token of
its old name is passed all the same. -/
theorem revoked_session_passed :
    ¬ ∀ c, (requestMachine sampleSite).Reaches Machine.anyStep c → ∀ l x m,
      c.trace = l ++ x :: m →
      (∀ y ∈ m, ∀ claims, passed y = some claims → own y.thread (l ++ [x]) = [] →
        (∀ row ∈ touched sampleSite x, row.isSentinel = false → row.revoked = true →
          login c.trace claims.sid ≠ login c.trace row.sid) ∧
        tvFrom sampleSite x.after.doc.value claims.username ≤ claims.tv) ∧
      ∀ username, tvFrom sampleSite x.after.doc.value username ≤
        tvFrom sampleSite c.state.doc.value username := by
  intro hall
  have hrun : (((requestMachine sampleSite).runChecked (fun _ _ => true)
      ⟨⟨⟨[], 0⟩, ⟨[], []⟩⟩, [], []⟩
      ([.start (.signIn "alice" 0 "x$x:r0" {}), .start (.refresh "r0" {}), .start (.revoke "s1"),
        .start (.evaluate ⟨"s0", "alice", 0, 1000, 2000, false⟩ {} false)] ++
        List.replicate 6 (accessWith 0 "s0" "") ++ List.replicate 8 (accessWith 1 "s1" "r1") ++
        List.replicate 3 (accessWith 2 "" "") ++ List.replicate 9 (accessWith 3 "" ""))).any
      fun c => c.trace[16]?.any fun x =>
        passedAfter "s0" (c.trace.take 16) x (c.trace.drop 17) (login c.trace)) = true := by
    decide
  obtain ⟨c, hc, hend⟩ := Machine.reaches_of_runChecked (fun _ _ _ => trivial) start_empty hrun
  obtain ⟨x, hx, hend⟩ := (Option.any_eq_true _ _).mp hend
  obtain ⟨⟨y, hy, claims, hpassed, hsid, hown⟩, row, hrow, hsen, hrevoked, hlogin⟩ :=
    passedAfter_iff hend
  have hfinal := ((hall c hc _ x _ (split_of_getElem hx)).1 y hy claims hpassed hown).1
  exact hfinal row hrow hsen hrevoked (by rw [hsid, hlogin])

end AgenticKibana.Sessions
