import AgenticKibana.Library.Dict
import AgenticKibana.Library.Json
import AgenticKibana.Stores.Document

/-!
# The user registry, and reads that fail

All login accounts are one key-value document, a list of user records.  An entry that does not
validate is skipped when the list is loaded, and is gone with the next write.  An operation whose
read fails works on an empty registry; what it then writes passes the compare-and-set exactly when
the stored document has revision 0, and `create_if_absent` writes without a check.
-/

namespace AgenticKibana.Users

open AgenticKibana.Library AgenticKibana.Stores List

inductive UserRole where
  | superAdmin
  | socManager
  | analystTier2
  | analystTier1
  | responder
  | auditor
  deriving DecidableEq

structure SecondFactor where
  enabled : Bool := false
  secret : String := ""
  recoveryHashes : List String := []
  lastStep : Nat := 0
  deriving DecidableEq

structure User where
  username : String := ""
  passwordHash : String := ""
  role : UserRole := .analystTier1
  active : Bool := true
  mustChangePassword : Bool := false
  createdAt : String
  updatedAt : String
  lastLoginAt : Option String := none
  groups : List String := []
  mfa : SecondFactor := {}
  mfaRequired : Bool := false
  oauthProvider : String := ""
  oauthSub : String := ""
  displayName : String := ""
  userAlias : String := ""
  avatar : String := ""
  altEmail : String := ""
  timezone : String := ""
  locale : String := ""
  prefs : Dict String Json := Dict.empty
  email : String := ""
  phone : String := ""

/-- The fields `UserStore.update` may set; `none` leaves a field as it is. -/
structure Patch where
  role : Option UserRole := none
  active : Option Bool := none
  passwordHash : Option String := none
  mustChangePassword : Option Bool := none
  lastLoginAt : Option String := none
  mfaEnabled : Option Bool := none
  mfaSecret : Option String := none
  mfaRecoveryHashes : Option (List String) := none
  mfaLastStep : Option Nat := none
  oauthProvider : Option String := none
  oauthSub : Option String := none
  displayName : Option String := none
  userAlias : Option String := none
  avatar : Option String := none
  altEmail : Option String := none
  timezone : Option String := none
  locale : Option String := none
  prefs : Option (Dict String Json) := none
  email : Option String := none
  phone : Option String := none
  mfaRequired : Option Bool := none

def Patch.apply (p : Patch) (now : String) (u : User) : User :=
  { u with
    role := p.role.getD u.role
    active := p.active.getD u.active
    passwordHash := p.passwordHash.getD u.passwordHash
    mustChangePassword := p.mustChangePassword.getD u.mustChangePassword
    lastLoginAt := p.lastLoginAt.orElse fun _ => u.lastLoginAt
    mfa := {
      enabled := p.mfaEnabled.getD u.mfa.enabled
      secret := p.mfaSecret.getD u.mfa.secret
      recoveryHashes := p.mfaRecoveryHashes.getD u.mfa.recoveryHashes
      lastStep := p.mfaLastStep.getD u.mfa.lastStep }
    oauthProvider := p.oauthProvider.getD u.oauthProvider
    oauthSub := p.oauthSub.getD u.oauthSub
    displayName := p.displayName.getD u.displayName
    userAlias := p.userAlias.getD u.userAlias
    avatar := p.avatar.getD u.avatar
    altEmail := p.altEmail.getD u.altEmail
    timezone := p.timezone.getD u.timezone
    locale := p.locale.getD u.locale
    prefs := p.prefs.getD u.prefs
    email := p.email.getD u.email
    phone := p.phone.getD u.phone
    mfaRequired := p.mfaRequired.getD u.mfaRequired
    updatedAt := now }

inductive Entry where
  | valid (u : User)
  | corrupt (raw : Json)

def Entry.user? : Entry → Option User
  | .valid u => some u
  | .corrupt _ => none

def users (entries : List Entry) : List User := entries.filterMap Entry.user?

@[simp] theorem users_map_valid (us : List User) : users (us.map .valid) = us := by
  induction us with
  | nil => rfl
  | cons u us ih => simp only [users, map_cons, filterMap_cons, Entry.user?] at ih ⊢; rw [ih]

/-- What the registry takes from Python's text methods, the functions of `auth` that rest on
primitives (`hotp`, `none` where it raises `ValueError`; the password check; the obfuscation
of secrets), and the configured digits and period of TOTP codes. -/
structure Site where
  strip : String → String
  lower : String → String
  upper : String → String
  hotp : String → Nat → Nat → Option String
  verifyPassword : String → String → Bool
  deobfuscate : String → String
  obfuscate : String → String
  digits : Nat := 6
  period : Nat := 30

def Site.norm (site : Site) (username : String) : String := site.lower (site.strip username)

inductive Failure where
  | valueError (message : String)
  | structError
  | unavailable
  | http (status : Nat) (detail : String)
  deriving DecidableEq

def customRolesKey : String := "custom_roles"

def carryCustomRoles (stored prefs : Dict String Json) : Dict String Json :=
  match stored.get? customRolesKey with
  | some roles => prefs.set customRolesKey roles
  | none => prefs.erase customRolesKey

inductive Edit where
  /-- `mfa_confirm` -/
  | enrolled (secret : String) (recoveryHashes : List String) (step : Nat)
  /-- `mfa_verify`, with a TOTP code -/
  | accepted (step : Nat)
  /-- `mfa_verify`, with a recovery code -/
  | consumed (code : String) (recoveryHashes : List String)
  /-- `mfa_disable` -/
  | disabled
  /-- a patch of given values -/
  | patched (patch : Patch)
  /-- `update_account_me`: a patch, and a preferences bag but for the custom roles -/
  | profile (patch : Patch) (prefs : Option (Dict String Json))

def Edit.apply : Edit → User → User
  | .enrolled secret hashes step, u => { u with mfa := ⟨true, secret, hashes, step⟩ }
  | .accepted step, u => { u with mfa := { u.mfa with lastStep := step } }
  | .consumed _ hashes, u => { u with mfa := { u.mfa with recoveryHashes := hashes } }
  | .disabled, u => { u with mfa := ⟨false, "", [], 0⟩ }
  | .patched patch, u => patch.apply u.updatedAt u
  | .profile patch prefs, u =>
    { patch with prefs := prefs.map (carryCustomRoles u.prefs) }.apply u.updatedAt u

/-- What a write was made for: the record the request had loaded, if its values come from one,
and what it asks to change. -/
structure Origin where
  loaded : Option User
  edit : Edit

/-- The changes of `UserStore`. -/
inductive Change where
  | save (user : User)
  | create (user : User)
  | update (username : String) (patch : Patch)
  | delete (username : String)

def Change.username : Change → String
  | .save user => user.username
  | .create user => user.username
  | .update username _ => username
  | .delete username => username

def replaceFirst (site : Site) (needle : String) (f : User → User) : List User → List User
  | [] => []
  | u :: us =>
    if site.norm u.username = needle then f u :: us else u :: replaceFirst site needle f us

def find (site : Site) (us : List User) (username : String) : Option User :=
  us.find? fun u => site.norm u.username == site.norm username

/-- What the closures of `UserStore` do to the list. -/
def Change.edit (site : Site) (now : String) : Change → List User → Except Failure (List User)
  | .save user, us =>
    .ok (if (find site us user.username).isSome then
      replaceFirst site (site.norm user.username)
        (fun existing => { user with createdAt := existing.createdAt, updatedAt := now }) us
    else us ++ [user])
  | .create user, us =>
    if (find site us user.username).isSome then
      .error (.valueError s!"user '{user.username}' already exists")
    else .ok (us ++ [user])
  | .update username patch, us =>
    .ok (replaceFirst site (site.norm username) (patch.apply now) us)
  | .delete username, us =>
    .ok (us.filter fun u => site.norm u.username != site.norm username)

structure Write where
  change : Change
  origin : Option Origin := none

structure Moment where
  now : String
  seconds : Nat

/-- The mutator of `_mutate`. -/
def apply (site : Site) (w : Write) (e : Moment) (entries : List Entry) :
    Except Failure (List Entry) :=
  (w.change.edit site e.now (users entries)).map fun us => us.map .valid

variable {site : Site} {needle : String} {f : User → User} {us : List User}

theorem sublist_replaceFirst {p : User → Bool}
    (hp : ∀ u, p u = true → site.norm u.username ≠ needle) :
    (us.filter p).Sublist (replaceFirst site needle f us) := by
  induction us with
  | nil => exact List.Sublist.refl _
  | cons u us ih =>
    simp only [replaceFirst]
    by_cases hname : site.norm u.username = needle
    · have hout : p u = false := by
        cases hu : p u with
        | false => rfl
        | true => exact absurd hname (hp u hu)
      rw [if_pos hname, filter_cons_of_neg (by simp [hout])]
      exact (filter_sublist).trans (sublist_cons_self _ _)
    · rw [if_neg hname]
      cases hu : p u with
      | false =>
        rw [filter_cons_of_neg (by simp [hu])]
        exact ih.trans (sublist_cons_self _ _)
      | true =>
        rw [filter_cons_of_pos hu]
        exact ih.cons_cons u

variable {c : Change} {now : String} {us' : List User}

theorem sublist_edit (h : c.edit site now us = .ok us') :
    (us.filter fun u => site.norm u.username != site.norm c.username).Sublist us' := by
  have hp : ∀ u : User, (site.norm u.username != site.norm c.username) = true →
      site.norm u.username ≠ site.norm c.username := by
    intro u hu
    simpa using hu
  cases c with
  | save user =>
    simp only [Change.edit, Except.ok.injEq] at h
    split at h
    · rw [← h]
      exact sublist_replaceFirst hp
    · rw [← h]
      exact (filter_sublist).trans (sublist_append_left _ _)
  | create user =>
    simp only [Change.edit] at h
    split at h
    · cases h
    · cases h
      exact (filter_sublist).trans (sublist_append_left _ _)
  | update username patch =>
    simp only [Change.edit, Except.ok.injEq] at h
    rw [← h]
    exact sublist_replaceFirst hp
  | delete username =>
    simp only [Change.edit, Except.ok.injEq] at h
    rw [← h]
    exact List.Sublist.refl _

def Change.row (now : String) : Change → Option User → Option User
  | .save user, some existing =>
    some { user with createdAt := existing.createdAt, updatedAt := now }
  | .save user, none => some user
  | .create user, _ => some user
  | .update _ patch, row => row.map (patch.apply now)
  | .delete _, _ => none

theorem find_cons (u : User) (us : List User) (username : String) :
    find site (u :: us) username =
      if site.norm u.username = site.norm username then some u else find site us username := by
  unfold find
  by_cases h : site.norm u.username = site.norm username
  · rw [if_pos h, find?_cons_of_pos (by simpa using h)]
  · rw [if_neg h, find?_cons_of_neg (by simpa using h)]

theorem find_append (us us' : List User) (username : String) :
    find site (us ++ us') username = (find site us username).or (find site us' username) :=
  find?_append

theorem find_replaceFirst
    (hf : ∀ u, site.norm u.username = needle → site.norm (f u).username = needle)
    (username : String) : find site (replaceFirst site needle f us) username =
      if site.norm username = needle then (find site us username).map f
      else find site us username := by
  induction us with
  | nil =>
    split
    · rfl
    · rfl
  | cons u us ih =>
    simp only [replaceFirst]
    by_cases hu : site.norm u.username = needle
    · rw [if_pos hu, find_cons, find_cons, hf u hu, hu]
      by_cases hname : site.norm username = needle
      · rw [if_pos hname, if_pos hname.symm, if_pos hname.symm]
        rfl
      · rw [if_neg hname, if_neg (Ne.symm hname), if_neg (Ne.symm hname)]
    · rw [if_neg hu, find_cons, find_cons, ih]
      by_cases hname : site.norm u.username = site.norm username
      · rw [if_pos hname, if_pos hname, if_neg (hname ▸ hu)]
      · rw [if_neg hname, if_neg hname]

theorem find_edit (h : c.edit site now us = .ok us') (username : String) :
    find site us' username = if site.norm username = site.norm c.username
      then c.row now (find site us username) else find site us username := by
  have hname : ∀ {name : String}, site.norm username = site.norm name →
      find site us name = find site us username := by
    intro name heq
    unfold find
    rw [heq]
  have happend : ∀ user : User, find site us user.username = none →
      find site (us ++ [user]) username = if site.norm username = site.norm user.username
        then some user else find site us username := by
    intro user hnone
    rw [find_append, find_cons]
    by_cases heq : site.norm username = site.norm user.username
    · rw [if_pos heq, if_pos heq.symm, ← hname heq, hnone]
      rfl
    · rw [if_neg heq, if_neg fun h => heq h.symm]
      exact Option.or_none
  cases c with
  | save user =>
    simp only [Change.edit, Except.ok.injEq] at h
    rw [← h]
    cases hfind : find site us user.username with
    | none =>
      rw [if_neg (by simp), happend user hfind]
      by_cases heq : site.norm username = site.norm user.username
      · rw [if_pos heq, Change.username, if_pos heq, ← hname heq, hfind]
        rfl
      · rw [if_neg heq, Change.username, if_neg heq]
    | some existing =>
      have hrow := @find_replaceFirst site (site.norm user.username)
        (fun existing => { user with createdAt := existing.createdAt, updatedAt := now }) us
        (fun _ _ => rfl) username
      rw [if_pos (by simp), hrow, Change.username]
      by_cases heq : site.norm username = site.norm user.username
      · rw [if_pos heq, if_pos heq, ← hname heq, hfind]
        rfl
      · rw [if_neg heq, if_neg heq]
  | create user =>
    simp only [Change.edit] at h
    split at h
    · cases h
    · rename_i hnone
      cases h
      rw [happend user (by simpa using hnone)]
      rfl
  | update name patch =>
    simp only [Change.edit, Except.ok.injEq] at h
    have hrow := @find_replaceFirst site (site.norm name) (patch.apply now) us
      (fun _ hu => hu) username
    rw [← h, hrow]
    rfl
  | delete name =>
    simp only [Change.edit, Except.ok.injEq] at h
    rw [← h]
    show find site _ username = if site.norm username = site.norm name then none else _
    unfold find
    rw [find?_filter]
    by_cases heq : site.norm username = site.norm name
    · rw [if_pos heq, find?_eq_none]
      intro u _ hu
      simp [heq] at hu
    · rw [if_neg heq]
      congr 1
      funext u
      by_cases hu : site.norm u.username = site.norm username
      · simp [hu, heq]
      · simp [hu]

/-! ### `UserStore` -/

variable {X : Type} {R : X → Type}

abbrev Prog (R : X → Type) (α : Type) : Type := Program (List Entry) Write Moment Failure R α

namespace UserStore

/-- `_load`: a read that fails is an empty registry. -/
def load : Prog R (List User) := do
  let current ← get
  pure (users (valueOf [] current))

/-- `_mutate`: the list the last attempt started from, and its clock. -/
def mutate (site : Site) (w : Write) : Prog R (Option (Attempt (List Entry) Moment)) :=
  kvMutate [] (apply site) w kvMutateRetries none

def getUser (site : Site) (username : String) : Prog R (Option User) := do
  let us ← load
  pure (find site us username)

/-- `has_any` reads the document itself: a failed read is raised by the SQL backend and is a
missing document for Elasticsearch. -/
def hasAny (raises : Bool) : Prog R Bool := do
  let current ← get
  match current with
  | some d => pure (!d.value.isEmpty)
  | none => if raises then .raise .unavailable else pure false

def save (site : Site) (user : User) (origin : Option Origin) : Prog R Unit := do
  let _ ← mutate site ⟨.save user, origin⟩
  pure ()

/-- The new record of `create` and `create_if_absent`. -/
def newUser (user : User) (e : Moment) : User :=
  { user with createdAt := e.now, updatedAt := e.now }

def create (site : Site) (user : User) : Prog R User := do
  let uname := site.strip user.username
  if uname = "" then .raise (.valueError "username is required") else do
    let e ← moment
    let user := newUser { user with username := uname } e
    let _ ← mutate site ⟨.create user, none⟩
    pure user

def createIfAbsent (site : Site) (raises : Bool) (user : User) : Prog R (Option User) := do
  let entries ← load
  if entries.isEmpty then do
    let e ← moment
    let user := newUser { user with username := site.strip user.username } e
    let saved ← put [.valid user]
    if raises && !saved then .raise .unavailable else pure (some user)
  else pure none

def update (site : Site) (username : String) (patch : Patch) (origin : Option Origin) :
    Prog R (Option User) := do
  let attempt ← mutate site ⟨.update username patch, origin⟩
  pure (attempt.bind fun a =>
    (find site (users (valueOf [] a.current)) username).map (patch.apply a.moment.now))

def delete (site : Site) (username : String) : Prog R Bool := do
  let attempt ← mutate site ⟨.delete username, none⟩
  pure (attempt.any fun a => (find site (users (valueOf [] a.current)) username).isSome)

end UserStore

/-! ### Operations one after another -/

inductive Operation where
  | load
  | hasAny
  | save (user : User)
  | create (user : User)
  | createIfAbsent (user : User)
  | update (username : String) (patch : Patch)
  | delete (username : String)

def noReply : Empty → Type := fun x => x.elim

def noOther {V : Type} (_ : Nat) (x : Empty) (_ : Unit) (_ : State V Unit) :
    Option (State V Unit × noReply x) :=
  x.elim

def Operation.code (site : Site) (raises : Bool) : Operation → Prog noReply Unit
  | .load => do let _ ← UserStore.load; pure ()
  | .hasAny => do let _ ← UserStore.hasAny raises; pure ()
  | .save user => UserStore.save site user none
  | .create user => do let _ ← UserStore.create site user; pure ()
  | .createIfAbsent user => do let _ ← UserStore.createIfAbsent site raises user; pure ()
  | .update username patch => do let _ ← UserStore.update site username patch none; pure ()
  | .delete username => do let _ ← UserStore.delete site username; pure ()

def AllValid (s : State (List Entry) Unit) : Prop := ∀ e ∈ s.doc.value, e.user?.isSome = true

def storeMachine (site : Site) (raises : Bool) :
    Machine (Clients (@Act.Reply (List Entry) Write Empty Moment noReply) Operation Failure Unit
      (State (List Entry) Unit)) (Move Operation (Answer Moment Unit)) :=
  (service noOther).machine (Operation.code site raises) AllValid

/-- A document that is changed by `kv_mutate` alone, with any mutators. -/
def documentMachine {V M E F : Type} (empty : V) (apply : M → E → V → Except F V) :
    Machine (Clients (@Act.Reply V M Empty E noReply) M F (Option (Attempt V E)) (State V Unit))
      (Move M (Answer E Unit)) :=
  (service noOther).machine (fun m => kvMutate empty apply m kvMutateRetries none) fun _ => True

def Write.asks (site : Site) (w : Write) (e : Entry) : Bool :=
  e.user?.any fun u => site.norm u.username == site.norm w.change.username

/-- What an access leaves of the stored entries: a write keeps all it was not asked to change, as
they were; a bootstrap keeps them all. -/
def Spares (site : Site) (x : Step (List Entry) Write Moment Unit noReply) : Prop :=
  match x.act with
  | .putIf w _ _ _ => (x.before.doc.value.filter fun e => !w.asks site e).Sublist x.after.doc.value
  | .put _ => x.before.doc.value.Sublist x.after.doc.value
  | _ => x.after.doc = x.before.doc

def failedRead (x : Step (List Entry) Write Moment Unit noReply) : Bool :=
  match x with
  | ⟨_, .get, none, _, _⟩ => true
  | _ => false

def SightedBootstrap
    (c : Clients (@Act.Reply (List Entry) Write Empty Moment noReply) Operation Failure Unit
      (State (List Entry) Unit)) (move : Move Operation (Answer Moment Unit)) : Prop :=
  match Service.action c move with
  | some (τ, .put _) => (own τ c.trace).any failedRead = false ∨ c.state.doc.value = []
  | _ => True

/-! ### Reads that fail -/

variable {site : Site} {raises : Bool}

abbrev StoreStep : Type := Step (List Entry) Write Moment Unit noReply

/-- What an operation knows when it performs an action: a write is computed from the read
before it, and a bootstrap has just read no users. -/
def Known (site : Site) (l : List StoreStep) (a : Act (List Entry) Write Moment Empty) : Prop :=
  Computed [] (apply site) l a ∧ ∀ value, a = .put value →
    (∃ u, value = [.valid u]) ∧ ∃ τ l0 current e s u,
      l = l0 ++ [⟨τ, .get, current, s, s⟩, ⟨τ, .moment, e, u, u⟩] ∧
        (current = none ∨ current = some s.doc) ∧ users (valueOf [] current) = []

theorem known_get (l : List StoreStep) : Known site l .get :=
  ⟨trivial, fun _ h => by cases h⟩

theorem known_moment (l : List StoreStep) : Known site l .moment :=
  ⟨trivial, fun _ h => by cases h⟩

variable {w : Write}

theorem spec_mutate {τ : Nat} {l : List StoreStep} :
    Code.spec (service noOther) τ (Known site) (fun _ _ => True) (fun _ _ => True)
      (UserStore.mutate site w) l :=
  spec_kvMutate (fun _ => True) (fun _ _ _ _ => trivial) (fun l _ => known_get l)
    (fun l _ => known_moment l) (fun _ _ _ _ _ h => ⟨h, fun _ heq => by cases heq⟩)
    (fun _ _ _ => trivial) trivial (fun _ _ _ => trivial) _ _

theorem spec_code (τ : Nat) (op : Operation) :
    Code.spec (service noOther) τ (Known site) (fun _ _ => True) (fun _ _ => True)
      (op.code site raises) [] := by
  have hmutate : ∀ {α : Type} {l : List StoreStep} (w : Write)
      (f : Option (Attempt (List Entry) Moment) → α),
      Code.spec (service noOther) τ (Known site) (fun _ _ => True) (fun _ _ => True)
        (do let a ← UserStore.mutate (R := noReply) site w; pure (f a)) l :=
    fun w f => spec_bind (spec_mono spec_mutate (fun _ _ _ => trivial) (fun _ _ _ => trivial))
  cases op with
  | load => exact spec_get_bind (known_get _) fun _ _ _ => trivial
  | hasAny =>
    refine spec_bind (spec_get_bind (known_get _) fun current _ _ => ?_)
    cases current with
    | none => cases raises <;> trivial
    | some d => trivial
  | save user => exact hmutate _ _
  | create user =>
    refine spec_bind ?_
    simp only [UserStore.create]
    split
    · trivial
    · exact spec_moment_bind (known_moment _) fun _ _ => hmutate _ _
  | createIfAbsent user =>
    refine spec_bind (spec_bind (spec_get_bind (known_get _) fun current s hcurrent => ?_))
    show Code.spec _ _ _ _ _ (if (users (valueOf [] current)).isEmpty = true then _ else _) _
    split
    · rename_i hempty
      refine spec_moment_bind (known_moment _) fun e u => ⟨⟨trivial, ?_⟩, ?_⟩
      · intro value hvalue
        cases hvalue
        exact ⟨⟨_, rfl⟩, τ, [], current, e, s, u, rfl, hcurrent, List.isEmpty_iff.mp hempty⟩
      · intro answer s t r _
        cases raises <;> cases r <;> trivial
    · trivial
  | update username patch | delete username => exact spec_bind (hmutate _ _)

variable {e : Moment} {entries value : List Entry}

theorem valid_of_apply (h : apply site w e entries = .ok value) :
    ∃ us, w.change.edit site e.now (users entries) = .ok us ∧ value = us.map .valid := by
  unfold apply at h
  cases hedit : w.change.edit site e.now (users entries) with
  | error failure => rw [hedit] at h; cases h
  | ok us =>
    rw [hedit] at h
    cases h
    exact ⟨us, rfl, rfl⟩

theorem isSome_map_valid (us : List User) : ∀ e ∈ us.map Entry.valid, e.user?.isSome = true := by
  intro e he
  obtain ⟨u, -, rfl⟩ := List.mem_map.mp he
  rfl

theorem map_valid_users (h : ∀ e ∈ entries, e.user?.isSome = true) :
    (users entries).map .valid = entries := by
  induction entries with
  | nil => rfl
  | cons e entries ih =>
    have hrest := ih fun e' he' => h e' (mem_cons_of_mem _ he')
    have he := h e mem_cons_self
    cases e with
    | valid u =>
      simp only [users, filterMap_cons, Entry.user?, map_cons] at hrest ⊢
      rw [hrest]
    | corrupt raw => cases he

theorem sublist_apply (hvalid : ∀ e ∈ entries, e.user?.isSome = true)
    (h : apply site w e entries = .ok value) :
    (entries.filter fun e => !w.asks site e).Sublist value := by
  obtain ⟨us, hedit, rfl⟩ := valid_of_apply h
  have hkept := (sublist_edit hedit).map Entry.valid
  have hfilter : (entries.filter fun e => !w.asks site e) =
      ((users entries).filter fun u =>
        site.norm u.username != site.norm w.change.username).map .valid := by
    conv_lhs => rw [← map_valid_users hvalid]
    rw [List.filter_map]
    rfl
  rw [hfilter]
  exact hkept

/-- The condition on a run of the store: operations one after another, whose failed reads meet
nothing that a write could replace. -/
def SightedRun (c : Clients (@Act.Reply (List Entry) Write Empty Moment noReply) Operation Failure
    Unit (State (List Entry) Unit)) (move : Move Operation (Answer Moment Unit)) : Prop :=
  Uninterrupted c move ∧ Sighted [] c move ∧ SightedBootstrap c move

theorem leavesDocument_noOther {V : Type} :
    LeavesDocument (noOther (V := V)) := fun _ x => x.elim

variable
  {c : Clients (@Act.Reply (List Entry) Write Empty Moment noReply) Operation Failure Unit
    (State (List Entry) Unit)}

theorem entries_of_reaches (h : (storeMachine site raises).Reaches SightedRun c) :
    AllValid c.state ∧ ∀ x ∈ c.trace, AllValid x.before ∧
      ∀ value, x.act = .put value → x.before.doc.value = [] := by
  refine Service.trace_induction spec_code (I := fun trace s => AllValid s ∧
    ∀ x ∈ trace, AllValid x.before ∧ ∀ value, x.act = .put value → x.before.doc.value = []) ?_ ?_ h
  · intro s hs
    exact ⟨hs, fun x hx => absurd hx not_mem_nil⟩
  · intro c τ answer n a k t r hc ⟨hvalid, hall⟩ hτ hP hG hserve
    have hsnoc : AllValid t → (∀ value, a = .put value → c.state.doc.value = []) →
        AllValid t ∧ ∀ x ∈ c.trace ++ [⟨τ, a, r, c.state, t⟩], AllValid x.before ∧
          ∀ value, x.act = .put value → x.before.doc.value = [] := by
      intro ht hput
      refine ⟨ht, fun x hx => ?_⟩
      rcases mem_append.mp hx with hx | hx
      · exact hall x hx
      · rw [mem_singleton.mp hx]
        exact ⟨hvalid, hput⟩
    cases a with
    | get =>
      obtain ⟨rfl, -⟩ := serve_get hserve
      exact hsnoc hvalid fun value h => by cases h
    | moment =>
      obtain rfl := serve_moment hserve
      exact hsnoc hvalid fun value h => by cases h
    | other x => exact x.elim
    | putIf w e current value =>
      refine hsnoc ?_ fun value h => by cases h
      obtain ⟨-, hdoc | ⟨-, hdoc⟩⟩ := serve_putIf hserve
      · intro e' he'
        rw [hdoc] at he'
        exact hvalid e' he'
      · obtain ⟨us, -, rfl⟩ := valid_of_apply hP.1.1
        intro e' he'
        rw [hdoc] at he'
        exact isSome_map_valid us e' he'
    | put value =>
      obtain ⟨⟨u, rfl⟩, τ', l0, current, e, s, s', hl, hcurrent, hnone⟩ := hP.2 _ rfl
      have hempty : c.state.doc.value = [] := by
        rcases hcurrent with rfl | rfl
        · have hsight := hG.2.2
          simp only [SightedBootstrap, Service.action, hτ] at hsight
          refine hsight.resolve_left fun hfail => ?_
          rw [List.any_eq_false] at hfail
          exact hfail ⟨τ', .get, none, s, s⟩ (by rw [hl]; simp) rfl
        · -- the bootstrap follows its read without a gap
          obtain ⟨hseam, hlast, -⟩ := written_of_uninterrupted spec_code leavesDocument_noOther
            (fun n l a hP => hP.1) (fun _ _ hG => hG.1) hc
          have hread : s = s' := by
            have hpair := hseam τ
            rw [hl] at hpair
            exact (isChain_append_cons_cons.mp hpair).2.1
          have hclock : s' = c.state := by
            have hown : (own τ c.trace).getLast? = some ⟨τ', .moment, e, s', s'⟩ := by
              rw [hl]
              simp
            rcases hG.1 with hno | hthread
            · rw [hno] at hown
              cases hown
            · rw [getLast?_own hthread] at hown
              exact hlast _ hown
          rw [← hclock, ← hread]
          rw [valueOf_some] at hnone
          have hall' : ∀ e ∈ s.doc.value,
            e.user?.isSome = true := by rw [hread, hclock]; exact hvalid
          have hmap := map_valid_users hall'
          rw [← hmap, hnone]
          rfl
      refine hsnoc ?_ fun _ _ => hempty
      have ht : t.doc.value = [.valid u] ∨ t.doc.value = c.state.doc.value := by
        simp only [service] at hserve
        split at hserve
        · cases hserve
          exact .inl rfl
        · cases hserve
          exact .inr rfl
        · cases hserve
          exact .inl rfl
      intro e' he'
      rcases ht with ht | ht
      · rw [ht, mem_singleton] at he'
        rw [he']
        rfl
      · rw [ht] at he'
        exact hvalid e' he'

theorem spec_document {V M E F : Type} {empty : V} {apply : M → E → V → Except F V} (τ : Nat)
    (m : M) : Code.spec (service noOther) τ
      (fun (l : List (Step V M E Unit noReply)) a => Computed empty apply l a ∧ ∀ v, a ≠ .put v)
      (fun _ _ => True) (fun _ _ => True) (kvMutate empty apply m kvMutateRetries none) [] :=
  spec_kvMutate (fun _ => True) (fun _ _ _ _ => trivial)
    (fun _ _ => ⟨trivial, fun _ h => by cases h⟩) (fun _ _ => ⟨trivial, fun _ h => by cases h⟩)
    (fun _ _ _ _ _ h => ⟨h, fun _ h => by cases h⟩) (fun _ _ _ => trivial) trivial
    (fun _ _ _ => trivial) _ _

/-- **Reads that fail destroy nothing** in a run whose failed reads meet no document of revision
0: every write spares the entries it was not asked to change, a bootstrap all; and every other
document that `kv_mutate` changes becomes what its mutator makes of the stored one. -/
theorem reads_failing_spare_entries (site : Site) (raises : Bool) :
    (∀ c, (storeMachine site raises).Reaches SightedRun c → ∀ x ∈ c.trace, Spares site x) ∧
    ∀ (V M E F : Type) (empty : V) (apply : M → E → V → Except F V) c,
      (documentMachine empty apply).Reaches (Sighted empty) c →
      ∀ x ∈ c.trace, x.after.doc = x.before.doc ∨ ∃ m e current value,
        x.act = .putIf m e current value ∧
          apply m e x.before.doc.value = .ok x.after.doc.value := by
  constructor
  · intro c h x hx
    obtain ⟨hvalid, hput⟩ := (entries_of_reaches h).2 x hx
    have hwritten := (written_of_uninterrupted spec_code leavesDocument_noOther
      (fun n l a hP => hP.1) (fun _ _ hG => hG.1) h).2.2 x hx
    have hsighted := sighted_of_reaches spec_code (fun _ _ hG => hG.2.1) h x hx
    obtain ⟨τ, a, r, s, t⟩ := x
    cases a with
    | other x => exact x.elim
    | put value =>
      show s.doc.value.Sublist t.doc.value
      rw [hput value rfl]
      exact List.nil_sublist _
    | get | moment =>
      rcases (hwritten fun v h => by cases h).computed hsighted with hdoc | ⟨_, _, _, _, hact, -⟩
      · exact hdoc
      · cases hact
    | putIf w e current value =>
      show (s.doc.value.filter fun e => !w.asks site e).Sublist t.doc.value
      rcases (hwritten fun v h => by cases h).computed hsighted with
        hdoc | ⟨w', e', current', value', hact, happly⟩
      · have hsame : t.doc.value = s.doc.value := congrArg Document.value hdoc
        rw [hsame]
        exact List.filter_sublist
      · cases hact
        exact sublist_apply hvalid happly
  · intro V M E F empty apply c h x hx
    have hwritten := (written_of_revisions spec_document leavesDocument_noOther
      (fun _ _ _ hP => hP) h).2 x hx
    exact hwritten.computed (sighted_of_reaches spec_document (fun _ _ hG => hG) h x hx)

/-! ### Two runs -/

def sightedRun (c : Clients (@Act.Reply (List Entry) Write Empty Moment noReply) Operation Failure
    Unit (State (List Entry) Unit)) (move : Move Operation (Answer Moment Unit)) : Bool :=
  uninterrupted c move && match Service.action c move with
    | some (_, .putIf _ _ none _) => c.state.doc.rev != 0 || c.state.doc.value.isEmpty
    | some (τ, .put _) => !(own τ c.trace).any failedRead || c.state.doc.value.isEmpty
    | _ => true

theorem sightedRun_iff {move : Move Operation (Answer Moment Unit)} (h : sightedRun c move = true) :
    SightedRun c move := by
  rw [sightedRun, Bool.and_eq_true] at h
  refine ⟨uninterrupted_iff.mp h.1, ?_, ?_⟩
  · unfold Sighted
    split
    · rename_i heq
      simpa [heq] using h.2
    · trivial
  · unfold SightedBootstrap
    split
    · rename_i heq
      simpa [heq] using h.2
    · trivial

def sampleSite : Site where
  strip := id
  lower := id
  upper := id
  hotp _ counter _ := some (if counter = 1 then "111111" else "000000")
  verifyPassword password hash := password == hash
  deobfuscate := id
  obfuscate := id

def sampleUser (name : String) : User :=
  { username := name, createdAt := "then", updatedAt := "then" }

def sampleAccounts (rev : Nat) : State (List Entry) Unit :=
  ⟨⟨[.valid (sampleUser "alice"), .valid (sampleUser "bob")], rev⟩, ()⟩

/-- The next access of client `τ`, answered or not. -/
def access (τ : Nat) (fault : Fault) : Move Operation (Answer Moment Unit) :=
  .step τ ⟨fault, ⟨"now", 0⟩, ()⟩

theorem sampleAccounts_valid (rev : Nat) : AllValid (sampleAccounts rev) := by
  intro e he
  simp only [sampleAccounts, mem_cons, not_mem_nil, or_false] at he
  rcases he with rfl | rfl
  · rfl
  · rfl

theorem start_sampleAccounts (rev : Nat) :
    (storeMachine sampleSite false).start ⟨sampleAccounts rev, [], []⟩ :=
  ⟨sampleAccounts_valid rev, rfl, rfl⟩

/-- A disabling whose first read fails meets revision 1, and is tried again. -/
theorem reads_failing_spare_entries_of_retry :
    ∃ c, (storeMachine sampleSite false).Reaches SightedRun c ∧
      (∀ x ∈ c.trace, Spares sampleSite x) ∧
      (users c.state.doc.value).map (fun u => (u.username, u.active)) =
        [("alice", false), ("bob", true)] := by
  have hrun : (((storeMachine sampleSite false).runChecked sightedRun ⟨sampleAccounts 1, [], []⟩
      ([.start (.update "alice" { active := some false }), access 0 .lost] ++
        List.replicate 5 (access 0 .answered))).any fun c =>
      (users c.state.doc.value).map (fun u => (u.username, u.active)) ==
        [("alice", false), ("bob", true)]) = true := by decide
  obtain ⟨c, hc, hend⟩ := Machine.reaches_of_runChecked (fun _ _ => sightedRun_iff)
    (start_sampleAccounts 1) hrun
  exact ⟨c, hc, (reads_failing_spare_entries sampleSite false).1 c hc, by simpa using hend⟩

def losesUser (x : Step (List Entry) Write Moment Unit noReply) : Bool :=
  match x.act with
  | .put _ => (users x.before.doc.value).length == 2 && (users x.after.doc.value).length == 1
  | _ => false

/-- A bootstrap whose read fails replaces the accounts that are there. -/
theorem bootstrap_replaces_accounts :
    ¬ ∀ c, (storeMachine sampleSite false).Reaches Uninterrupted c →
      ∀ x ∈ c.trace, Spares sampleSite x := by
  intro hall
  have hrun : (((storeMachine sampleSite false).runChecked uninterrupted ⟨sampleAccounts 1, [], []⟩
      [.start (.createIfAbsent (sampleUser "admin")), access 0 .lost, access 0 .answered,
        access 0 .answered]).any fun c =>
      (c.trace.map fun x => (users x.before.doc.value).length) == [2, 2, 2] &&
        c.trace.any losesUser) = true := by decide
  obtain ⟨c, hc, hend⟩ := Machine.reaches_of_runChecked (fun _ _ => uninterrupted_iff.mp)
    (start_sampleAccounts 1) hrun
  rw [Bool.and_eq_true, List.any_eq_true] at hend
  obtain ⟨-, x, hx, hput⟩ := hend
  have hspares := hall c hc x hx
  unfold Spares at hspares
  unfold losesUser at hput
  split at hput
  · rename_i heq
    simp only [heq] at hspares
    rw [Bool.and_eq_true, beq_iff_eq, beq_iff_eq] at hput
    have hlen := (hspares.filterMap Entry.user?).length_le
    simp only [users] at hput
    omega
  · cases hput

end AgenticKibana.Users
