import AgenticKibana.Users.SingleUse

/-!
# Admin changes and self-service saves

Admin requests patch the stored record of a user.  A self-service request saves the record it
loaded, or takes its custom roles along, so it undoes every admin change that was committed in
between.  What is read of a record stays as an admin left it as long as the writes of loaded
records meet what they were loaded with.
-/

namespace AgenticKibana.Users

open AgenticKibana.Library AgenticKibana.Stores List

variable {site : Site} {username : String} {α : Type} {f : User → α}

/-- What `f` reads of a record, the times of its creation and of its last change apart. -/
def seen (f : User → α) (u : User) : α := f { u with createdAt := "", updatedAt := "" }

/-- A write of a loaded record finds in the stored one what it does not mean to change: a save
the whole record, a profile update with preferences the custom roles. -/
def Write.UpToDate (site : Site) (f : User → α) (s : Shared) (w : Write) : Prop :=
  match w with
  | ⟨.save saved, some ⟨some user, edit⟩⟩ => ∃ b, row site saved.username s = some b ∧
      seen f (edit.apply user) = seen f (edit.apply b)
  | ⟨.update name _, some ⟨some user, .profile _ (some _)⟩⟩ => ∀ b, row site name s = some b →
      seen f { b with prefs := carryCustomRoles user.prefs b.prefs } = seen f b
  | _ => True

/-- The condition on a run: no failed read passes for an empty registry, and every write of a
loaded record that passes the revision check is up to date. -/
def UpToDateRun (site : Site) (f : User → α) (c : Requests) (move : RequestMove) : Prop :=
  Sighted [] c move ∧
  match Service.action c move with
  | some (_, .putIf w _ current _) => c.state.doc.rev = revOf current → w.UpToDate site f c.state
  | _ => True

/-- An access that was not asked to change what `f` reads of the user. -/
def LeftAlone (site : Site) (username : String) (f : User → α) (x : RequestStep) : Prop :=
  ∀ w e current value, x.act = .putIf w e current value → x.after.doc.rev ≠ x.before.doc.rev →
    w.Leaves site username (seen f)

variable {w : Write} {e : Moment}

theorem row_of_computed {s t : Shared} (h : apply site w e s.doc.value = .ok t.doc.value)
    (username : String) : row site username t = if site.norm username = site.norm w.change.username
      then w.change.row e.now (row site username s) else row site username s :=
  find_edit (users_apply h) username

theorem apply_carried (patch : Patch) (prefs : Dict String Json) (user b : User) :
    seen f ({ patch with prefs := some (carryCustomRoles user.prefs prefs) }.apply b.updatedAt b) =
      seen f ((Edit.profile patch (some prefs)).apply
        { b with prefs := carryCustomRoles user.prefs b.prefs }) := by
  have hcarry : carryCustomRoles (carryCustomRoles user.prefs b.prefs) prefs =
      carryCustomRoles user.prefs prefs := by
    have hroles := get?_carryCustomRoles user.prefs b.prefs
    simp only [carryCustomRoles] at hroles ⊢
    rw [hroles]
  simp only [Edit.apply, seen, Patch.apply, Option.map_some, hcarry, Option.getD_some]

/-- **One write keeps what it was not asked to change.** -/
theorem row_kept {s t : Shared} (hderived : w.Derived site)
    (happly : apply site w e s.doc.value = .ok t.doc.value) (hdate : w.UpToDate site f s)
    (hleaves : w.Leaves site username (seen f)) :
    (row site username t).map (seen f) = (row site username s).map (seen f) := by
  have hrow := row_of_computed happly username
  by_cases hname : site.norm username = site.norm w.change.username
  · obtain ⟨origin, horigin, hedit⟩ := hleaves.resolve_left fun h => h hname.symm
    rw [if_pos hname, row_congr hname s] at hrow
    rw [hrow, row_congr hname s]
    cases hderived with
    | saved user edit hpatched hprofile =>
      cases horigin
      obtain ⟨b, hb, hsame⟩ := hdate
      simp only [Change.username] at hb ⊢
      rw [hb]
      simp only [Change.row, Option.map_some]
      exact congrArg some (hsame.trans (hedit b))
    | patched name patch =>
      cases horigin
      simp only [Change.row, Option.map_map]
      exact congrArg (Option.map · _) (funext hedit)
    | profile name user patch prefs =>
      cases horigin
      simp only [Change.row, Change.username]
      cases hb : row site name s with
      | none => rfl
      | some b =>
        simp only [Option.map_some]
        refine congrArg some ?_
        cases prefs with
        | none => exact hedit b
        | some prefs =>
          exact (apply_carried patch prefs user b).trans ((hedit _).trans (hdate b hb))
    | deleted name => cases horigin
  · rw [hrow, if_neg hname]

def tokenVersion (site : Site) (username : String) (s : Shared) : Nat :=
  (s.rest.get? (site.norm username)).getD 0

variable {c : Requests} {start : Shared → Prop} {G : Requests → RequestMove → Prop}

theorem tokenVersion_of_reaches (h : (requestMachine site start).Reaches G c) :
    ∀ x ∈ c.trace, ∀ username,
      tokenVersion site username x.after ≤ tokenVersion site username c.state := by
  refine Service.trace_induction verified_code (I := fun trace s => ∀ x ∈ trace, ∀ username,
    tokenVersion site username x.after ≤ tokenVersion site username s) ?_ ?_ h
  · intro s _ x hx
    exact absurd hx not_mem_nil
  · intro c τ answer n a k t r _ hI _ hknows _ hserve x hx username
    have hstep : tokenVersion site username c.state ≤ tokenVersion site username t := by
      unfold tokenVersion
      cases a with
      | get => rw [(serve_get hserve).1]
      | moment => rw [serve_moment hserve]
      | put value => exact absurd rfl (hknows.noPut value)
      | putIf w e current value => rw [(serve_putIf hserve).1]
      | other x =>
        cases x with
        | mint name | loginOk name method => cases hserve; exact Nat.le_refl _
        | revokeAll name =>
          cases hserve
          simp only [Dict.get?_set]
          split
          · rename_i heq
            rw [heq]
            exact Nat.le_succ _
          · exact Nat.le_refl _
    rcases mem_append.mp hx with hx | hx
    · exact (hI x hx username).trans hstep
    · rw [mem_singleton.mp hx]

variable {m : List RequestStep} {x : RequestStep}

theorem kept_of_leftAlone (h : (requestMachine site start).Reaches (UpToDateRun site f) c)
    {l : List RequestStep} (htrace : c.trace = l ++ x :: m)
    (hm : ∀ y ∈ m, LeftAlone site username f y) :
    (row site username c.state).map (seen f) = (row site username x.after).map (seen f) := by
  have hall : ∀ l x m, c.trace = l ++ x :: m → (∀ y ∈ m, LeftAlone site username f y) →
      (row site username c.state).map (seen f) = (row site username x.after).map (seen f) := by
    refine Service.trace_induction verified_code (I := fun trace s => ∀ l x m,
      trace = l ++ x :: m → (∀ y ∈ m, LeftAlone site username f y) →
      (row site username s).map (seen f) = (row site username x.after).map (seen f)) ?_ ?_ h
    · intro s _ l x m hnil
      exact absurd hnil (by simp)
    · intro c τ answer n a k t r hc hI hτ hknows hG hserve l x m htrace hm
      rcases split_concat htrace with ⟨rfl, rfl⟩ | ⟨m, rfl, hl⟩
      · rfl
      refine Eq.trans ?_ (hI l x m hl fun y hy => hm y (mem_append_left _ hy))
      -- the last access
      have hsame : t.doc = c.state.doc →
          (row site username t).map (seen f) = (row site username c.state).map (seen f) := by
        intro hdoc
        unfold row
        rw [hdoc]
      cases a with
      | get => exact hsame (congrArg State.doc (serve_get hserve).1)
      | moment => exact hsame (congrArg State.doc (serve_moment hserve))
      | put value => exact absurd rfl (hknows.noPut value)
      | other x =>
        refine hsame ?_
        cases x with
        | mint name | loginOk name method | revokeAll name => cases hserve; rfl
      | putIf w e current value =>
        rcases (serve_putIf hserve).2 with hdoc | ⟨hpass, hdoc⟩
        · exact hsame hdoc
        have hrev : t.doc.rev ≠ c.state.doc.rev := by
          rw [hdoc, hpass]
          exact Nat.succ_ne_self _
        have hx : Written [] (apply site)
            (⟨τ, .putIf w e current value, r, c.state, t⟩ : RequestStep) := by
          have hstep : (requestMachine site start).step c (.step τ answer) =
              some ⟨t, c.clients.set τ (n, k r),
                c.trace ++ [⟨τ, .putIf w e current value, r, c.state, t⟩]⟩ := by
            simp only [requestMachine, Service.machine, Service.step, hτ, hserve]
          exact written_of_requests (hc.step hG hstep) _
            (mem_append_right _ mem_cons_self)
        have hdate := hG.2
        simp only [Service.action, hτ] at hdate
        have hsighted := hG.1
        simp only [Sighted, Service.action, hτ] at hsighted
        have hcomputed := hx.computed fun m e value hact hzero => by
          cases hact
          exact hsighted.resolve_left fun hne => hne hzero
        rcases hcomputed with hdoc | ⟨w', e', current', value', hact, happly⟩
        · exact absurd (congrArg Document.rev hdoc) hrev
        · cases hact
          exact row_kept (hknows.derived w e current value rfl) happly (hdate hpass)
            (hm _ (mem_append_right _ mem_cons_self) w e current value rfl hrev)
  exact hall l x m htrace hm

theorem leftAlone_of_request (h : (requestMachine site start).Reaches G c)
    (hf : ∀ u v : User, u.authority = v.authority → f u = f v) (hx : x ∈ c.trace)
    (hn : ∀ n code, c.clients[x.thread]? = some (n, code) → ¬ n.Administers site username) :
    LeftAlone site username f x := by
  obtain ⟨n, code, l, hclient, hknows⟩ := Service.known_of_reaches verified_code h x hx
  intro w e current value hact _
  rcases hknows.authority w e current value hact username (hn n code hclient) with
    hname | ⟨origin, horigin, hedit⟩
  · exact .inl hname
  · exact .inr ⟨origin, horigin, fun u => hf _ _ (hedit u)⟩

/-- **Admin changes stay** in every run whose writes of loaded records are up to date: what is
read of a user is, after any access, what it still is when no later write was asked to change
it.  What only admins change stays until an admin's request about the user; so a disabled user
does not become active, nor a deleted one present.  Token versions never decrease. -/
theorem admin_changes_kept (site : Site) {α : Type} (f : User → α) (username : String)
    {c : Requests}
    (h : (requestMachine site fun _ => True).Reaches (UpToDateRun site f) c) :
    (∀ l x m, c.trace = l ++ x :: m → (∀ y ∈ m, LeftAlone site username f y) →
      (row site username c.state).map (seen f) = (row site username x.after).map (seen f)) ∧
    ((∀ u v : User, u.authority = v.authority → f u = f v) → ∀ l x m, c.trace = l ++ x :: m →
      (∀ y ∈ m, ∀ n code, c.clients[y.thread]? = some (n, code) → ¬ n.Administers site username) →
      (row site username c.state).map (seen f) = (row site username x.after).map (seen f)) ∧
    ∀ x ∈ c.trace, tokenVersion site username x.after ≤ tokenVersion site username c.state := by
  refine ⟨fun l x m htrace hm => kept_of_leftAlone h htrace hm, ?_,
    fun x hx => tokenVersion_of_reaches h x hx username⟩
  intro hf l x m htrace hm
  refine kept_of_leftAlone h htrace fun y hy => ?_
  refine leftAlone_of_request h hf ?_ (hm y hy)
  rw [htrace]
  exact List.mem_append_right _ (List.mem_cons_of_mem _ hy)

/-! ### Two runs -/

instance (n : Request) : Decidable (n.Administers site username) := by
  cases n <;> unfold Request.Administers <;> infer_instance

/-- `UpToDateRun`, evaluated for what can be compared. -/
def upToDateRun [DecidableEq α] (site : Site) (f : User → α) (c : Requests) (move : RequestMove) :
    Bool :=
  match Service.action c move with
  | some (_, .putIf _ _ none _) => false
  | some (_, .putIf w _ current _) => c.state.doc.rev != revOf current || (match w with
    | ⟨.save saved, some ⟨some user, edit⟩⟩ => (row site saved.username c.state).any fun b =>
      seen f (edit.apply user) == seen f (edit.apply b)
    | ⟨.update _ _, some ⟨some _, .profile _ (some _)⟩⟩ => false
    | _ => true)
  | _ => true

theorem upToDateRun_iff [DecidableEq α] {move : RequestMove}
    (h : upToDateRun site f c move = true) : UpToDateRun site f c move := by
  unfold upToDateRun at h
  unfold UpToDateRun Sighted
  cases haction : Service.action c move with
  | none => exact ⟨trivial, trivial⟩
  | some p =>
    obtain ⟨τ, a⟩ := p
    rw [haction] at h
    cases a with
    | putIf w e current value =>
      cases current with
      | none => cases h
      | some d =>
        refine ⟨trivial, fun hrev => ?_⟩
        simp only [hrev, bne_self_eq_false, Bool.false_or] at h
        unfold Write.UpToDate
        split
        · obtain ⟨b, hb, hsame⟩ := (Option.any_eq_true _ _).mp h
          exact ⟨b, hb, by simpa using hsame⟩
        · cases h
        · trivial
    | _ => exact ⟨trivial, trivial⟩

/-- Whether the accesses after `x` are of requests that are not an admin's about the user. -/
def selfService (site : Site) (username : String) (c : Requests) (m : List RequestStep) : Bool :=
  m.all fun y => c.clients[y.thread]?.all fun p => !decide (p.1.Administers site username)

theorem selfService_iff (h : selfService site username c m = true) : ∀ y ∈ m, ∀ n code,
      c.clients[y.thread]? = some (n, code) → ¬ n.Administers site username := by
  intro y hy n code hn
  have hall := List.all_eq_true.mp h y hy
  rw [hn] at hall
  simpa using hall

theorem start_enrolled : (requestMachine sampleSite fun _ => True).start ⟨sampleEnrolled, [], []⟩ :=
  ⟨trivial, rfl, rfl⟩

/-- Whether, after the `i`th access, alice is disabled, and no admin's request follows. -/
def disabledAt (i : Nat) (c : Requests) : Bool :=
  match c.trace.drop i with
  | x :: m => (row sampleSite "alice" x.after).map (seen User.active) == some false &&
      selfService sampleSite "alice" c m
  | [] => false

theorem of_disabledAt {i : Nat} (h : disabledAt i c = true) :
    ∃ l x m, c.trace = l ++ x :: m ∧
      (row sampleSite "alice" x.after).map (seen User.active) = some false ∧
      selfService sampleSite "alice" c m = true := by
  unfold disabledAt at h
  split at h
  · rename_i x m hdrop
    rw [Bool.and_eq_true, beq_iff_eq] at h
    refine ⟨c.trace.take i, x, m, ?_, h.1, h.2⟩
    rw [← hdrop, take_append_drop]
  · cases h

set_option maxRecDepth 10000 in
/-- A login that starts after its user was disabled saves a disabled record. -/
theorem admin_changes_kept_of_disabled :
    ∃ c, (requestMachine sampleSite fun _ => True).Reaches (UpToDateRun sampleSite User.active) c ∧
      (∃ x ∈ c.trace, passed x = some (.totp 1)) ∧
      (row sampleSite "alice" c.state).map (seen User.active) = some false := by
  have hrun : (((requestMachine sampleSite fun _ => True).runChecked
      (upToDateRun sampleSite User.active) ⟨sampleEnrolled, [], []⟩
      ([.start (.updateUser "alice" { active := some false }),
        .start (.mfaVerify (some "alice") "111111")] ++
        List.replicate 5 (accessAt 0) ++ List.replicate 12 (accessAt 1))).any fun c =>
      c.trace.any (fun x => passed x == some (.totp 1)) && disabledAt 4 c) = true := by
    decide
  obtain ⟨c, hc, hend⟩ := Machine.reaches_of_runChecked (fun _ _ => upToDateRun_iff)
    start_enrolled hrun
  simp only [Bool.and_eq_true, List.any_eq_true, beq_iff_eq] at hend
  obtain ⟨hpassed, hdisabled⟩ := hend
  obtain ⟨l, x, m, htrace, hx, hm⟩ := of_disabledAt hdisabled
  refine ⟨c, hc, hpassed, ?_⟩
  have hkept := (admin_changes_kept sampleSite User.active "alice" hc).2.1
    (fun u v huv => congrArg Authority.active huv) l x m htrace (selfService_iff hm)
  rw [hkept, hx]

set_option maxRecDepth 10000 in
/-- A login that loaded its user before the user was disabled saves an active one. -/
theorem login_activates_disabled :
    ¬ ∀ c, (requestMachine sampleSite fun _ => True).Reaches Machine.anyStep c →
      ∀ l x m, c.trace = l ++ x :: m →
      (∀ y ∈ m, ∀ n code, c.clients[y.thread]? = some (n, code) →
        ¬ n.Administers sampleSite "alice") →
      (row sampleSite "alice" c.state).map (seen User.active) =
        (row sampleSite "alice" x.after).map (seen User.active) := by
  intro hall
  have hrun : (((requestMachine sampleSite fun _ => True).runChecked (fun _ _ => true)
      ⟨sampleEnrolled, [], []⟩
      ([.start (.updateUser "alice" { active := some false }),
        .start (.mfaVerify (some "alice") "111111")] ++ List.replicate 2 (accessAt 1) ++
        List.replicate 5 (accessAt 0) ++ List.replicate 3 (accessAt 1))).any fun c =>
      (row sampleSite "alice" c.state).map (seen User.active) == some true && disabledAt 6 c) =
      true := by decide
  obtain ⟨c, hc, hend⟩ := Machine.reaches_of_runChecked (fun _ _ _ => trivial) start_enrolled hrun
  rw [Bool.and_eq_true, beq_iff_eq] at hend
  obtain ⟨l, x, m, htrace, hx, hm⟩ := of_disabledAt hend.2
  have hsame := hall c hc l x m htrace (selfService_iff hm)
  rw [hend.1, hx] at hsame
  cases hsame

end AgenticKibana.Users
