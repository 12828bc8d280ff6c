import AgenticKibana.Users.ReadFailures

/-!
# The requests that change user records

The self-service second-factor requests load a record, check a code against it and save
the record as a whole; profile and admin requests patch the stored one.
-/

namespace AgenticKibana.Users

open AgenticKibana.Library AgenticKibana.Stores

/-- How `mfa_verify` was passed. -/
inductive Method where
  | totp (step : Nat)
  | recovery (code : String)
  deriving DecidableEq

/-- What a request does besides: mint a session (whether the account is active in the synced
view decides it), record the login, raise the token version. -/
inductive Effect where
  | mint (username : String)
  | loginOk (username : String) (method : Method)
  | revokeAll (username : String)

def Effect.Reply : Effect → Type
  | .mint _ => Bool
  | .loginOk .. => Unit
  | .revokeAll _ => Unit

/-- The token versions of the users are kept with the sessions. -/
abbrev Shared : Type := State (List Entry) (Dict String Nat)

def serveEffect (site : Site) (_ : Nat) (x : Effect) (minted : Bool) (s : Shared) :
    Option (Shared × x.Reply) :=
  match x with
  | .mint _ => some (s, minted)
  | .loginOk .. => some (s, ())
  | .revokeAll username =>
    let key := site.norm username
    some ({ s with rest := s.rest.set key ((s.rest.get? key).getD 0 + 1) }, ())

abbrev Request.Prog (α : Type) : Type := Users.Prog Effect.Reply α

def mint (username : String) : Request.Prog Bool := other (Effect.mint username)

def loginOk (username : String) (method : Method) : Request.Prog Unit :=
  other (Effect.loginOk username method)

def raiseTokenVersion (username : String) : Request.Prog Unit := other (Effect.revokeAll username)

def cleanCode (site : Site) (code : String) : List Char :=
  (site.strip code).toList.filter (· ≠ ' ')

/-- The time steps a code is tried for, oldest first, with their codes; `none` where `hotp` raises.
-/
def candidates (site : Site) (secret : String) (step : Nat) : Option (List (Nat × String)) :=
  [step - 1, step, step + 1].mapM fun n => (site.hotp secret n site.digits).map fun c => (n, c)

def totpStep (site : Site) (seconds : Nat) : Nat :=
  seconds / (if site.period = 0 then 30 else site.period)

/-- `verify_totp` with a window of one step: the matched step, unless there is none or it is not
after `lastStep`.  A counter below 0 cannot be packed. -/
def verifyTotp (site : Site) (secret code : String) (seconds : Nat) (lastStep : Option Nat) :
    Except Failure (Option Nat) :=
  let code := cleanCode site code
  if code = [] ∨ code.all Char.isDigit = false then .ok none
  else
    if totpStep site seconds = 0 then .error .structError
    else
      match candidates site secret (totpStep site seconds) with
      | none => .ok none
      | some tried =>
        match (tried.filter fun c => c.2.toList == code).getLast? with
        | none => .ok none
        | some (n, _) => .ok (if lastStep.any (n ≤ ·) then none else some n)

def normRecovery (site : Site) (code : String) : String :=
  site.upper (String.ofList ((site.strip code).toList.filter fun c => c ≠ '-' ∧ c ≠ ' '))

def verifyRecoveryCode (site : Site) (code hash : String) : Bool :=
  site.verifyPassword (normRecovery site code) hash

theorem lt_of_verifyTotp {site : Site} {secret code : String} {seconds last n : Nat}
    (h : verifyTotp site secret code seconds (some last) = .ok (some n)) : last < n := by
  simp only [verifyTotp] at h
  split at h
  · cases h
  by_cases hstep : totpStep site seconds = 0
  · rw [if_pos hstep] at h
    cases h
  rw [if_neg hstep] at h
  split at h
  · cases h
  split at h
  · cases h
  · rename_i m _ _
    by_cases hle : (some last).any (m ≤ ·) = true
    · rw [if_pos hle] at h
      cases h
    · rw [if_neg hle] at h
      cases h
      simpa using hle

/-! ### Requests -/

structure PendingEnrollment where
  secret : String
  recoveryHashes : List String

/-- The fields of a profile request, `prefs` apart. -/
structure ProfileBody where
  displayName : Option String := none
  userAlias : Option String := none
  avatar : Option String := none
  altEmail : Option String := none
  timezone : Option String := none
  locale : Option String := none
  prefs : Option (Dict String Json) := none

def ProfileBody.patch (body : ProfileBody) : Patch where
  displayName := body.displayName
  userAlias := body.userAlias
  avatar := body.avatar
  altEmail := body.altEmail
  timezone := body.timezone
  locale := body.locale

structure AdminBody where
  role : Option UserRole := none
  active : Option Bool := none
  passwordHash : Option String := none
  mfaEnabled : Option Bool := none
  mfaRequired : Option Bool := none
  displayName : Option String := none
  email : Option String := none
  phone : Option String := none

def AdminBody.patch (body : AdminBody) : Patch :=
  let reset : Patch := if body.mfaEnabled = some false then
    { mfaEnabled := some false, mfaSecret := some "", mfaRecoveryHashes := some [],
      mfaLastStep := some 0 } else {}
  { reset with
    role := body.role
    active := body.active
    passwordHash := body.passwordHash
    mustChangePassword := body.passwordHash.map fun _ => true
    mfaRequired := body.mfaRequired
    displayName := body.displayName
    email := body.email
    phone := body.phone }

inductive Request where
  /-- `subject` is what the pending token vouches for -/
  | mfaVerify (subject : Option String) (code : String)
  | mfaConfirm (username : String) (pending : Option PendingEnrollment) (code : String)
  | mfaDisable (username code : String)
  | updateProfile (username : String) (body : ProfileBody)
  | updateUser (username : String) (body : AdminBody)
  | assignRoles (username : String) (role : Option UserRole) (customRoles : Option Json)
  | deleteUser (username : String)
  | revokeAll (username : String)

inductive Response where
  | signedIn (username : String)
  | done

namespace Routes

variable (site : Site)

def checkTotp (user : User) (code : String) : Request.Prog (Option Nat) :=
  let secret := site.deobfuscate user.mfa.secret
  if secret = "" then pure none
  else do
    let e ← moment
    match verifyTotp site secret code e.seconds (some user.mfa.lastStep) with
    | .error failure => .raise failure
    | .ok step => pure step

def checkFactor (user : User) (code : String) : Request.Prog (Option (Method × Edit)) := do
  let totp ← checkTotp site user code
  match totp with
  | some step => pure (some (.totp step, .accepted step))
  | none =>
    match user.mfa.recoveryHashes.findIdx? (verifyRecoveryCode site code) with
    | some i =>
      let code := normRecovery site code
      pure (some (.recovery code, .consumed code (user.mfa.recoveryHashes.eraseIdx i)))
    | none => pure none

def mfaVerify (subject : Option String) (code : String) : Request.Prog Response := do
  match subject with
  | none => .raise (.http 401 "invalid or expired pending session")
  | some username => do
      let user ← UserStore.getUser site username
      match user with
      | none => .raise (.http 400 "MFA is not enabled for this account")
      | some user =>
        if user.mfa.enabled = false then .raise (.http 400 "MFA is not enabled for this account")
        else do
          let factor ← checkFactor site user code
          match factor with
          | none => .raise (.http 401 "invalid code")
          | some (method, edit) => do
              UserStore.save site (edit.apply user) (some ⟨some user, edit⟩)
              let _ ← UserStore.load
              let minted ← mint username
              if minted = false then .raise (.http 401 "invalid credentials")
              else do
                let e ← moment
                let patch : Patch := { lastLoginAt := some e.now }
                let _ ← UserStore.update site username patch (some ⟨none, .patched patch⟩)
                loginOk username method
                pure (.signedIn username)

def mfaConfirm (username : String) (pending : Option PendingEnrollment) (code : String) :
    Request.Prog Response := do
  match pending with
  | none => .raise (.http 400 "no pending MFA enrollment; call setup first")
  | some pending => do
      let e ← moment
      match verifyTotp site pending.secret code e.seconds none with
      | .error failure => .raise failure
      | .ok none => .raise (.http 400 "invalid code")
      | .ok (some step) => do
          let user ← UserStore.getUser site username
          match user with
          | none => .raise (.http 400
              "this account is managed via environment configuration and cannot enroll MFA")
          | some user => do
              let edit : Edit :=
                .enrolled (site.obfuscate pending.secret) pending.recoveryHashes step
              UserStore.save site (edit.apply user) (some ⟨some user, edit⟩)
              let _ ← UserStore.load
              pure .done

def mfaDisable (username code : String) : Request.Prog Response := do
  let user ← UserStore.getUser site username
  match user with
  | none => .raise (.http 400 "MFA is not enabled for this account")
  | some user =>
    if user.mfa.enabled = false then .raise (.http 400 "MFA is not enabled for this account")
    else do
      let factor ← checkFactor site user code
      match factor with
      | none => .raise (.http 400 "invalid code")
      | some _ => do
          UserStore.save site (Edit.disabled.apply user) (some ⟨some user, .disabled⟩)
          let _ ← UserStore.load
          pure .done

def updateProfile (username : String) (body : ProfileBody) : Request.Prog Response := do
  let user ← UserStore.getUser site username
  match user with
  | none => .raise (.http 400
      "this account is managed via environment configuration and cannot self-edit")
  | some user => do
      let patch : Patch := { body.patch with prefs := body.prefs.map (carryCustomRoles user.prefs) }
      let _ ← UserStore.update site username patch
        (some ⟨some user, .profile body.patch body.prefs⟩)
      let _ ← UserStore.load
      pure .done

def wouldOrphanSuperAdmin (target : User) (demoting disabling : Bool) : Request.Prog Bool := do
  if target.role ≠ .superAdmin ∨ target.active = false ∨ (!demoting && !disabling) then pure false
  else do
    let us ← UserStore.load
    pure (decide ((us.filter fun u => u.active && u.role == .superAdmin).length ≤ 1))

def updateUser (username : String) (body : AdminBody) : Request.Prog Response := do
  let target ← UserStore.getUser site username
  match target with
  | none => .raise (.http 404 "user not found")
  | some target =>
    if body.mfaEnabled = some true then
      .raise (.http 400 "MFA can only be enabled by the user via self-service enrollment")
    else do
      let demoting := body.role.any (· ≠ .superAdmin)
      let orphan ← wouldOrphanSuperAdmin target demoting (body.active == some false)
      if orphan then
        .raise (.http 409 "cannot demote or disable the last active super_admin")
      else do
        let _ ← UserStore.update site username body.patch (some ⟨none, .patched body.patch⟩)
        let _ ← UserStore.load
        pure .done

/-- The admin-owned part of an assignment is set whatever the loaded record says; the rest of
its preferences bag is carried along. -/
def assignRoles (username : String) (role : Option UserRole) (customRoles : Option Json) :
    Request.Prog Response := do
  let target ← UserStore.getUser site username
  match target with
  | none => .raise (.http 404 "user not found")
  | some target => do
      let orphan ← wouldOrphanSuperAdmin target (role.any (· ≠ .superAdmin)) false
      if orphan then .raise (.http 409 "cannot demote the last active super_admin")
      else do
        let patch : Patch :=
          { role, prefs := customRoles.map fun roles => target.prefs.set customRolesKey roles }
        let _ ← UserStore.update site username patch (some ⟨none, .patched patch⟩)
        let _ ← UserStore.load
        pure .done

def deleteUser (username : String) : Request.Prog Response := do
  let target ← UserStore.getUser site username
  match target with
  | none => .raise (.http 404 "user not found")
  | some target => do
      let orphan ← wouldOrphanSuperAdmin target true true
      if orphan then .raise (.http 409 "cannot delete the last active super_admin")
      else do
        let _ ← UserStore.delete site username
        let _ ← UserStore.load
        pure .done

def revokeAll (username : String) : Request.Prog Response := do
  raiseTokenVersion username
  pure .done

end Routes

def Request.code (site : Site) : Request → Request.Prog Response
  | .mfaVerify subject code => Routes.mfaVerify site subject code
  | .mfaConfirm username pending code => Routes.mfaConfirm site username pending code
  | .mfaDisable username code => Routes.mfaDisable site username code
  | .updateProfile username body => Routes.updateProfile site username body
  | .updateUser username body => Routes.updateUser site username body
  | .assignRoles username role customRoles => Routes.assignRoles site username role customRoles
  | .deleteUser username => Routes.deleteUser site username
  | .revokeAll username => Routes.revokeAll username

abbrev Requests : Type :=
  Clients (@Act.Reply (List Entry) Write Effect Moment Effect.Reply) Request Failure Response Shared

abbrev RequestMove : Type := Move Request (Answer Moment Bool)

abbrev RequestStep : Type := Step (List Entry) Write Moment (Dict String Nat) Effect.Reply

/-- The requests on a registry that meets `start`. -/
def requestMachine (site : Site) (start : Shared → Prop) : Machine Requests RequestMove :=
  (service (serveEffect site)).machine (Request.code site) start

/-! ### What a request does by itself -/

inductive Write.Derived (site : Site) : Write → Prop where
  | saved (user : User) (edit : Edit) (patched : ∀ patch, edit ≠ .patched patch)
      (profile : ∀ patch prefs, edit ≠ .profile patch prefs)
      (accepted : ∀ n, edit = .accepted n → user.mfa.lastStep < n)
      (consumed : ∀ code hashes, edit = .consumed code hashes → ∃ i hash,
        user.mfa.recoveryHashes[i]? = some hash ∧ site.verifyPassword code hash = true ∧
          hashes = user.mfa.recoveryHashes.eraseIdx i) :
      Write.Derived site ⟨.save (edit.apply user), some ⟨some user, edit⟩⟩
  | patched (username : String) (patch : Patch) :
      Write.Derived site ⟨.update username patch, some ⟨none, .patched patch⟩⟩
  | profile (username : String) (user : User) (patch : Patch) (prefs : Option (Dict String Json)) :
      Write.Derived site ⟨.update username
        { patch with prefs := prefs.map (carryCustomRoles user.prefs) },
        some ⟨some user, .profile patch prefs⟩⟩
  | deleted (username : String) : Write.Derived site ⟨.delete username, none⟩

def Edit.method? : Edit → Option Method
  | .accepted step => some (.totp step)
  | .consumed code _ => some (.recovery code)
  | _ => none

def Write.OfLogin (site : Site) (username : String) (w : Write) : Prop :=
  (∃ user edit, w = ⟨.save (edit.apply user), some ⟨some user, edit⟩⟩ ∧ edit.method?.isSome = true ∧
    site.norm user.username = site.norm username) ∨
  ∃ now, w = ⟨.update username { lastLoginAt := some now },
    some ⟨none, .patched { lastLoginAt := some now }⟩⟩

structure Authority where
  role : UserRole
  customRoles : Option Json
  active : Bool
  passwordHash : String
  mustChangePassword : Bool
  mfaRequired : Bool
  email : String
  phone : String

def User.authority (u : User) : Authority where
  role := u.role
  customRoles := u.prefs.get? customRolesKey
  active := u.active
  passwordHash := u.passwordHash
  mustChangePassword := u.mustChangePassword
  mfaRequired := u.mfaRequired
  email := u.email
  phone := u.phone

def Request.Administers (site : Site) (username : String) : Request → Prop
  | .updateUser name _ => site.norm name = site.norm username
  | .assignRoles name _ _ => site.norm name = site.norm username
  | .deleteUser name => site.norm name = site.norm username
  | _ => False

/-- A write that was not asked to change what `f` reads of a user. -/
def Write.Leaves {α : Type} (site : Site) (username : String) (f : User → α) (w : Write) : Prop :=
  site.norm w.change.username ≠ site.norm username ∨
    ∃ origin, w.origin = some origin ∧ ∀ u, f (origin.edit.apply u) = f u

structure Request.Knows (site : Site) (n : Request) (l : List RequestStep)
    (a : Act (List Entry) Write Moment Effect) : Prop where
  computed : Computed [] (apply site) l a
  noPut : ∀ value, a ≠ .put value
  derived : ∀ w e current value, a = .putIf w e current value → w.Derived site
  login : ∀ w e current value, a = .putIf w e current value → ∀ subject code,
    n = .mfaVerify subject code → ∃ username, subject = some username ∧ w.OfLogin site username
  authority : ∀ w e current value, a = .putIf w e current value → ∀ username,
    ¬ n.Administers site username → w.Leaves site username User.authority

/-- A write that request `n` may make. -/
structure Request.May (site : Site) (n : Request) (w : Write) : Prop where
  derived : w.Derived site
  login : ∀ subject code, n = .mfaVerify subject code →
    ∃ username, subject = some username ∧ w.OfLogin site username
  authority : ∀ username, ¬ n.Administers site username → w.Leaves site username User.authority

section Specs

variable {site : Site} {n : Request} {τ : Nat} {l : List RequestStep}

theorem knows_silent {a : Act (List Entry) Write Moment Effect}
    (ha : a = .get ∨ a = .moment ∨ ∃ x, a = .other x) : Request.Knows site n l a := by
  rcases ha with rfl | rfl | ⟨x, rfl⟩ <;> exact {
    computed := trivial
    noPut := by intro value h; cases h
    derived := by intro w e current value h; cases h
    login := by intro w e current value h; cases h
    authority := by intro w e current value h; cases h }

/-- The programs of the requests, verified for what request `n` knows. -/
abbrev Verified (site : Site) (n : Request) (τ : Nat) {α : Type} (m : Request.Prog α)
    (l : List RequestStep) (Q : α → Prop) : Prop :=
  Code.spec (service (serveEffect site)) τ (Request.Knows site n) (fun a _ => Q a)
    (fun _ _ => True) m l

theorem verified_bind {α β : Type} {m : Request.Prog α} {f : α → Request.Prog β} {Q : α → Prop}
    {Q' : β → Prop} (hm : Verified site n τ m l Q)
    (hf : ∀ a l, Q a → Verified site n τ (f a) l Q') : Verified site n τ (m >>= f) l Q' :=
  spec_bind (spec_mono hm (fun a l ha => hf a l ha) fun _ _ _ => trivial)

theorem verified_load : Verified site n τ UserStore.load l fun _ => True :=
  spec_get_bind (knows_silent (.inl rfl)) fun _ _ _ => trivial

variable {username : String} {user : User}

theorem name_of_find {us : List User} (h : find site us username = some user) :
    site.norm user.username = site.norm username := by
  simpa using List.find?_some h

theorem verified_getUser (username : String) : Verified site n τ (UserStore.getUser site username) l
    fun user => ∀ u, user = some u → site.norm u.username = site.norm username :=
  verified_bind verified_load fun _ _ _ _ hu => name_of_find hu

variable {w : Write}

theorem verified_mutate (hw : Request.May site n w) :
    Verified site n τ (UserStore.mutate site w) l fun _ => True := by
  refine spec_kvMutate (fun _ => True) (fun _ _ _ _ => trivial) (fun _ _ => knows_silent (.inl rfl))
    (fun _ _ => knows_silent (.inr (.inl rfl))) ?_ (fun _ _ _ => trivial) trivial
    (fun _ _ _ => trivial) _ _
  intro l e current value _ hcomputed
  exact {
    computed := hcomputed
    noPut := by intro value h; cases h
    derived := by intro w e current value h; cases h; exact hw.derived
    login := by intro w e current value h; cases h; exact hw.login
    authority := by intro w e current value h; cases h; exact hw.authority }

variable {origin : Option Origin}

theorem verified_save (hw : Request.May site n ⟨.save user, origin⟩) :
    Verified site n τ (UserStore.save site user origin) l fun _ => True :=
  verified_bind (verified_mutate hw) fun _ _ _ => trivial

theorem verified_update {patch : Patch} (hw : Request.May site n ⟨.update username patch, origin⟩) :
    Verified site n τ (UserStore.update site username patch origin) l fun _ => True :=
  verified_bind (verified_mutate hw) fun _ _ _ => trivial

theorem verified_delete (hw : Request.May site n ⟨.delete username, none⟩) :
    Verified site n τ (UserStore.delete site username) l fun _ => True :=
  verified_bind (verified_mutate hw) fun _ _ _ => trivial

theorem verified_other (x : Effect) : Verified site n τ (Stores.other x) l fun _ => True :=
  ⟨knows_silent (.inr (.inr ⟨x, rfl⟩)), fun _ _ _ _ _ => trivial⟩

theorem verified_moment : Verified site n τ Stores.moment l fun _ => True :=
  ⟨knows_silent (.inr (.inl rfl)), fun _ _ _ _ _ => trivial⟩

theorem verified_checkTotp (user : User) (code : String) :
    Verified site n τ (Routes.checkTotp site user code) l fun totp =>
      ∀ step, totp = some step → user.mfa.lastStep < step := by
  unfold Routes.checkTotp
  dsimp only
  split
  · intro step h
    cases h
  · refine verified_bind verified_moment fun e l _ => ?_
    cases hverify : verifyTotp site (site.deobfuscate user.mfa.secret) code e.seconds
      (some user.mfa.lastStep) with
    | error failure => trivial
    | ok totp =>
      rintro step rfl
      exact lt_of_verifyTotp hverify

theorem verified_checkFactor (user : User) (code : String) :
    Verified site n τ (Routes.checkFactor site user code) l fun factor =>
      ∀ method edit, factor = some (method, edit) → edit.method? = some method ∧
        (∀ step, edit = .accepted step → user.mfa.lastStep < step) ∧
        ∀ code hashes, edit = .consumed code hashes → ∃ i hash,
          user.mfa.recoveryHashes[i]? = some hash ∧ site.verifyPassword code hash = true ∧
            hashes = user.mfa.recoveryHashes.eraseIdx i := by
  refine verified_bind (verified_checkTotp user code) fun totp l htotp => ?_
  cases totp with
  | some step =>
    rintro method edit ⟨⟩
    refine ⟨rfl, ?_, ?_⟩
    · rintro step' ⟨⟩
      exact htotp step rfl
    · intro code hashes h
      cases h
  | none =>
    simp only
    cases hfind : user.mfa.recoveryHashes.findIdx? (verifyRecoveryCode site code) with
    | none =>
      intro method edit h
      cases h
    | some i =>
      obtain ⟨hlt, hverify, -⟩ := List.findIdx?_eq_some_iff_getElem.mp hfind
      rintro method edit ⟨⟩
      refine ⟨rfl, ?_, ?_⟩
      · intro step h
        cases h
      · rintro code' hashes ⟨⟩
        exact ⟨i, _, List.getElem?_eq_getElem hlt, hverify, rfl⟩

theorem may_of_derived (hw : w.Derived site) (hn : ∀ subject code, n ≠ .mfaVerify subject code)
    (hauthority : ∀ username, ¬ n.Administers site username →
      w.Leaves site username User.authority) : Request.May site n w :=
  ⟨hw, fun subject code h => absurd h (hn subject code), hauthority⟩

theorem leaves_saved {edit : Edit} (hpatched : ∀ patch, edit ≠ .patched patch)
    (hprofile : ∀ patch prefs, edit ≠ .profile patch prefs) (username : String) :
    Write.Leaves site username User.authority
      ⟨.save (edit.apply user), some ⟨some user, edit⟩⟩ := by
  refine .inr ⟨_, rfl, fun u => ?_⟩
  cases edit with
  | patched patch => exact absurd rfl (hpatched patch)
  | profile patch prefs => exact absurd rfl (hprofile patch prefs)
  | _ => rfl

theorem get?_carryCustomRoles (stored prefs : Dict String Json) :
    (carryCustomRoles stored prefs).get? customRolesKey = stored.get? customRolesKey := by
  unfold carryCustomRoles
  split
  · rename_i roles hroles
    rw [Dict.get?_set_self, hroles]
  · rename_i hnone
    rw [Dict.get?_erase, if_pos rfl, hnone]

theorem leaves_profile (name : String) (user : User) (body : ProfileBody) (username : String) :
    Write.Leaves site username User.authority
      ⟨.update name { body.patch with prefs := body.prefs.map (carryCustomRoles user.prefs) },
        some ⟨some user, .profile body.patch body.prefs⟩⟩ := by
  refine .inr ⟨_, rfl, fun u => ?_⟩
  have hroles : ((body.prefs.map (carryCustomRoles u.prefs)).getD u.prefs).get? customRolesKey =
      u.prefs.get? customRolesKey := by
    cases body.prefs with
    | none => rfl
    | some prefs => exact get?_carryCustomRoles u.prefs prefs
  simp only [Edit.apply, User.authority, Patch.apply, ProfileBody.patch, Option.getD_none, hroles]

theorem may_login {username code : String} {user : User} {method : Method} {edit : Edit}
    (hname : site.norm user.username = site.norm username) (hmethod : edit.method? = some method)
    (haccepted : ∀ step, edit = .accepted step → user.mfa.lastStep < step)
    (hconsumed : ∀ code hashes, edit = .consumed code hashes → ∃ i hash,
      user.mfa.recoveryHashes[i]? = some hash ∧ site.verifyPassword code hash = true ∧
        hashes = user.mfa.recoveryHashes.eraseIdx i) :
    Request.May site (.mfaVerify (some username) code)
      ⟨.save (edit.apply user), some ⟨some user, edit⟩⟩ where
  derived := by
    refine .saved user edit ?_ ?_ haccepted hconsumed
    · rintro patch rfl
      cases hmethod
    · rintro patch prefs rfl
      cases hmethod
  login := by
    rintro subject code' ⟨⟩
    exact ⟨username, rfl, .inl ⟨user, edit, rfl, by rw [hmethod]; rfl, hname⟩⟩
  authority := by
    intro username' _
    refine leaves_saved ?_ ?_ username'
    · rintro patch rfl
      cases hmethod
    · rintro patch prefs rfl
      cases hmethod

theorem verified_mfaVerify (subject : Option String) (code : String) :
    Verified site (.mfaVerify subject code) τ (Routes.mfaVerify site subject code) l
      fun _ => True := by
  cases subject with
  | none => trivial
  | some username =>
    refine verified_bind (verified_getUser username) fun user l hname => ?_
    cases user with
    | none => trivial
    | some user =>
      dsimp only
      split
      · trivial
      refine verified_bind (verified_checkFactor user code) fun factor l hfactor => ?_
      rcases factor with _ | ⟨method, edit⟩
      · trivial
      obtain ⟨hmethod, haccepted, hconsumed⟩ := hfactor method edit rfl
      have hmay := @may_login _ _ code _ _ _ (hname user rfl) hmethod haccepted hconsumed
      refine verified_bind (verified_save hmay) fun _ l _ => ?_
      refine verified_bind verified_load fun _ l _ => ?_
      refine verified_bind (verified_other (.mint username)) fun minted l _ => ?_
      split
      · trivial
      refine verified_bind verified_moment fun e l _ => ?_
      refine verified_bind (verified_update ⟨.patched _ _, ?_, ?_⟩) fun _ l _ =>
        verified_bind (verified_other _) fun _ _ _ => trivial
      · rintro subject code' ⟨⟩
        exact ⟨username, rfl, .inr ⟨e.now, rfl⟩⟩
      · exact fun _ _ => .inr ⟨_, rfl, fun _ => rfl⟩

theorem verified_withUser {e : Failure} {f : User → Request.Prog Response}
    (hf : ∀ user l, Verified site n τ (f user) l fun _ => True) : Verified site n τ (do
      let user ← UserStore.getUser site username
      match user with
      | none => .raise e
      | some user => f user) l fun _ => True := by
  refine verified_bind (verified_getUser username) fun user l _ => ?_
  cases user with
  | none => trivial
  | some user => exact hf user l

theorem verified_wouldOrphan (target : User) (demoting disabling : Bool) :
    Verified site n τ (Routes.wouldOrphanSuperAdmin target demoting disabling) l fun _ => True := by
  unfold Routes.wouldOrphanSuperAdmin
  split
  · trivial
  · exact verified_bind verified_load fun _ _ _ => trivial

theorem verified_code (τ : Nat) (n : Request) :
    Verified site n τ (n.code site) [] fun _ => True := by
  cases n with
  | mfaVerify subject code => exact verified_mfaVerify subject code
  | mfaConfirm username pending code =>
    cases pending with
    | none => trivial
    | some pending =>
      refine verified_bind verified_moment fun e l _ => ?_
      simp only
      split
      · trivial
      · trivial
      refine verified_withUser fun user l => ?_
      refine verified_bind (verified_save (may_of_derived ?_ (by simp) ?_)) fun _ l _ =>
        verified_bind verified_load fun _ _ _ => trivial
      · exact .saved user _ (by simp) (by simp) (by simp) (by simp)
      · exact fun name _ => leaves_saved (by simp) (by simp) name
  | mfaDisable username code =>
    refine verified_withUser fun user l => ?_
    split
    · trivial
    refine verified_bind (verified_checkFactor user code) fun factor l _ => ?_
    cases factor with
    | none => trivial
    | some factor =>
      refine verified_bind (verified_save (may_of_derived ?_ (by simp) ?_)) fun _ l _ =>
        verified_bind verified_load fun _ _ _ => trivial
      · exact .saved user _ (by simp) (by simp) (by simp) (by simp)
      · exact fun name _ => leaves_saved (by simp) (by simp) name
  | updateProfile username body =>
    refine verified_withUser fun user l => ?_
    exact verified_bind (verified_update (may_of_derived (.profile _ user _ _) (by simp)
      fun name _ => leaves_profile _ user body name)) fun _ l _ =>
        verified_bind verified_load fun _ _ _ => trivial
  | updateUser username body =>
    refine verified_withUser fun target l => ?_
    split
    · trivial
    refine verified_bind (verified_wouldOrphan _ _ _) fun orphan l _ => ?_
    split
    · trivial
    exact verified_bind (verified_update (may_of_derived (.patched _ _) (by simp)
      fun _ h => .inl h)) fun _ l _ => verified_bind verified_load fun _ _ _ => trivial
  | assignRoles username role customRoles =>
    refine verified_withUser fun target l => ?_
    refine verified_bind (verified_wouldOrphan _ _ _) fun orphan l _ => ?_
    split
    · trivial
    exact verified_bind (verified_update (may_of_derived (.patched _ _) (by simp)
      fun _ h => .inl h)) fun _ l _ => verified_bind verified_load fun _ _ _ => trivial
  | deleteUser username =>
    refine verified_withUser fun target l => ?_
    refine verified_bind (verified_wouldOrphan _ _ _) fun orphan l _ => ?_
    split
    · trivial
    exact verified_bind (verified_delete (may_of_derived (.deleted _) (by simp)
      fun _ h => .inl h)) fun _ l _ => verified_bind verified_load fun _ _ _ => trivial
  | revokeAll username => exact verified_bind (verified_other _) fun _ _ _ => trivial

end Specs

end AgenticKibana.Users
