import AgenticKibana.Sessions.Requests

/-!
# What a request knows when it acts

Every write, every token handed out and every request that is passed rests on what the request did
before.  A change replaces, re-keys or marks rows, or adds one; what bounds the registry only
drops rows.
-/

namespace AgenticKibana.Sessions

open AgenticKibana.Library AgenticKibana.Stores List

def minted (x : RequestStep) : Option (Option String × Claims) :=
  match x with
  | ⟨_, .other (.mint _ _ origin), some claims, _, _⟩ => some (origin, claims)
  | _ => none

def verified (x : RequestStep) : Option Claims :=
  match x with
  | ⟨_, .other (.verify claims), true, _, _⟩ => some claims
  | _ => none

def rowsRead (x : RequestStep) : Option (List Row) :=
  match x with
  | ⟨_, .get, current, _, _⟩ => some (valueOf [] current)
  | _ => none

def clock (x : RequestStep) : Option Nat :=
  match x with
  | ⟨_, .moment, now, _, _⟩ => some now
  | _ => none

def registers (claims : Claims) (x : RequestStep) : Prop :=
  ∃ row e current value, x.act = .putIf ⟨.create row, none⟩ e current value ∧
    row.sid = claims.sid ∧ row.revoked = false

structure Judged (l : List RequestStep) (claims : Claims) (site : Site) : Prop where
  version : ∃ x ∈ l, ∃ rows, rowsRead x = some rows ∧ tvFrom site rows claims.username ≤ claims.tv
  row : (∃ x ∈ l, ∃ rows, rowsRead x = some rows ∧
      ∃ row ∈ rows, row.sid = claims.sid ∧ row.revoked = false) ∨
    ∃ l0 x l1 rows, l = l0 ++ x :: l1 ∧ rowsRead x = some rows ∧
      (isSentinel claims.sid = false → ∀ row ∈ rows, row.sid ≠ claims.sid) ∧
      (∃ y ∈ l0, verified y = some claims) ∧
      (∃ y ∈ l1, ∃ now, clock y = some now ∧ issuedBeforePruneGrace claims now = false) ∧
      ∃ y ∈ l1, registers claims y

structure Knows (site : Site) (l : List RequestStep) (a : RequestAct) : Prop where
  computed : Computed [] (apply site) l a
  noPut : ∀ value, a ≠ .put value
  creates : ∀ row redeems e current value, a = .putIf ⟨.create row, redeems⟩ e current value →
    row.revoked = false ∧ ∃ claims, row.sid = claims.sid ∧
      ((∃ x ∈ l, minted x = some (none, claims)) ∨
        (∃ x ∈ l, verified x = some claims) ∧ row.refreshHash = "" ∧
          ∃ x ∈ l, ∃ now, clock x = some now ∧ issuedBeforePruneGrace claims now = false)
  rotates : ∀ oldSid newSid newHash idle redeems e current value,
    a = .putIf ⟨.rekeyAndRotate oldSid newSid newHash idle, redeems⟩ e current value →
      isSentinel oldSid = false ∧
        ∃ x ∈ l, ∃ claims, minted x = some (some oldSid, claims) ∧ claims.sid = newSid
  hands : ∀ claims presented, a = .other (.hand claims presented) →
    ∃ x ∈ l, ∃ origin, minted x = some (origin, claims) ∧ (presented = none → origin = none)
  allows : ∀ claims, a = .other (.allow claims) →
    (∃ x ∈ l, verified x = some claims) ∧ (claims.sid ≠ "" → Judged l claims site)

section Rules

variable {site : Site} {τ : Nat} {l : List RequestStep} {α : Type}

theorem knows_read {a : RequestAct} (ha : a = .get ∨ a = .moment) : Knows site l a := by
  rcases ha with rfl | rfl <;> exact {
    computed := trivial
    noPut := by intro value h; cases h
    creates := by intro row redeems e current value h; cases h
    rotates := by intro oldSid newSid newHash idle redeems e current value h; cases h
    hands := by intro claims presented h; cases h
    allows := by intro claims h; cases h }

theorem knows_effect {x : Effect}
    (hhand : ∀ claims presented, x = .hand claims presented →
      ∃ y ∈ l, ∃ origin, minted y = some (origin, claims) ∧ (presented = none → origin = none))
    (hallow : ∀ claims, x = .allow claims →
      (∃ y ∈ l, verified y = some claims) ∧ (claims.sid ≠ "" → Judged l claims site)) :
    Knows site l (.other x) where
  computed := trivial
  noPut := by intro value h; cases h
  creates := by intro row redeems e current value h; cases h
  rotates := by intro oldSid newSid newHash idle redeems e current value h; cases h
  hands := by intro claims presented h; cases h; exact hhand claims presented rfl
  allows := by intro claims h; cases h; exact hallow claims rfl

theorem knows_other {x : Effect} (hhand : ∀ claims presented, x ≠ .hand claims presented)
    (hallow : ∀ claims, x ≠ .allow claims) : Knows site l (.other x) :=
  knows_effect (fun claims presented h => absurd h (hhand claims presented))
    fun claims h => absurd h (hallow claims)

variable {w : Write} {Q : Unit → List RequestStep → Prop} {sid : String}

theorem knows_putIf {e : Nat} {current : Option (Document (List Row))} {value : List Row}
    (hcomputed : Computed [] (apply site) l (.putIf w e current value : RequestAct))
    (hcreate : ∀ row, w.change = .create row →
      row.revoked = false ∧ ∃ claims, row.sid = claims.sid ∧
      ((∃ x ∈ l, minted x = some (none, claims)) ∨
        (∃ x ∈ l, verified x = some claims) ∧ row.refreshHash = "" ∧
          ∃ x ∈ l, ∃ now, clock x = some now ∧ issuedBeforePruneGrace claims now = false))
    (hrekey : ∀ oldSid newSid newHash idle, w.change ≠ .rekeyAndRotate oldSid newSid newHash idle) :
    Knows site l (.putIf w e current value) where
  computed := hcomputed
  noPut := by intro value h; cases h
  creates := by intro row redeems e current value h; cases h; exact hcreate row rfl
  rotates := by
    intro oldSid newSid newHash idle redeems e current value h
    cases h
    exact absurd rfl (hrekey oldSid newSid newHash idle)
  hands := by intro claims presented h; cases h
  allows := by intro claims h; cases h

abbrev Known (site : Site) (τ : Nat) (m : Prog α) (l : List RequestStep)
    (Q : α → List RequestStep → Prop) : Prop :=
  Code.spec (service serveEffect) τ (Knows site) Q (fun _ _ => True) m l

theorem known_load {f : List Row → Prog α} {Q : α → List RequestStep → Prop}
    (h : ∀ rows x, rowsRead x = some rows → Known site τ (f (loaded rows)) (l ++ [x]) Q) :
    Known site τ (SessionStore.load >>= f) l Q :=
  spec_bind (spec_get_bind (knows_read (.inl rfl)) fun current _ _ => h (valueOf [] current) _ rfl)

theorem known_moment {f : Nat → Prog α} {Q : α → List RequestStep → Prop}
    (h : ∀ now x, clock x = some now → Known site τ (f now) (l ++ [x]) Q) :
    Known site τ (moment >>= f) l Q :=
  spec_moment_bind (knows_read (.inr rfl)) fun now _ => h now _ rfl

theorem known_mutate (hw : ∀ l' e current value, l <+: l' →
      Computed [] (apply site) l' (.putIf w e current value : RequestAct) →
      Knows site l' (.putIf w e current value))
    (h : ∀ l1, (∃ x ∈ l1, ∃ e current value, x.act = .putIf w e current value) → Q () (l ++ l1)) :
    Known site τ (SessionStore.mutate site w) l Q := by
  refine spec_bind ?_
  exact spec_kvMutate_tried (fun l' => l <+: l')
    (fun l' x hl' _ => hl'.trans (prefix_append _ _)) (fun _ _ => knows_read (.inl rfl))
    (fun _ _ => knows_read (.inr rfl)) (fun l' e current value hl' => hw l' e current value hl')
    (fun _ _ _ => trivial) (prefix_refl l) (fun _ l1 _ htried => h l1 htried) 7 none

theorem known_change (hcreate : ∀ row, w.change ≠ .create row)
    (hrekey : ∀ oldSid newSid newHash idle, w.change ≠ .rekeyAndRotate oldSid newSid newHash idle)
    (h : ∀ l1, Q () (l ++ l1)) : Known site τ (SessionStore.mutate site w) l Q :=
  known_mutate (fun _ _ _ _ _ hcomputed =>
    knows_putIf hcomputed (fun row h => absurd h (hcreate row)) hrekey) fun l1 _ => h l1

theorem known_create {username refreshHash : String} {tokenVersion idle absolute : Nat}
    {remember : Bool}
    (hclaims : ∃ claims : Claims, sid = claims.sid ∧ ((∃ x ∈ l, minted x = some (none, claims)) ∨
      (∃ x ∈ l, verified x = some claims) ∧ refreshHash = "" ∧
        ∃ x ∈ l, ∃ now, clock x = some now ∧ issuedBeforePruneGrace claims now = false))
    (h : ∀ now row l1, row = SessionStore.newRow sid username tokenVersion refreshHash idle absolute
      remember now → (∃ x ∈ l1, ∃ e current value,
        x.act = .putIf ⟨.create row, none⟩ e current value) →
        Q () (l ++ l1)) :
    Known site τ (SessionStore.create site sid username tokenVersion refreshHash idle absolute
      remember) l Q := by
  refine known_moment fun now x _ => known_mutate ?_ ?_
  · intro l' e current value hl' hcomputed
    obtain ⟨claims, hsid, hfrom⟩ := hclaims
    have hmem : ∀ y, y ∈ l → y ∈ l' := fun y hy => hl'.subset (mem_append_left _ hy)
    refine knows_putIf hcomputed ?_ (by simp)
    intro row hrow
    cases hrow
    refine ⟨rfl, claims, hsid, ?_⟩
    rcases hfrom with ⟨y, hy, hminted⟩ | ⟨⟨y, hy, hverified⟩, hhash, z, hz, hyoung⟩
    · exact .inl ⟨y, hmem y hy, hminted⟩
    · exact .inr ⟨⟨y, hmem y hy, hverified⟩, hhash, z, hmem z hz, hyoung⟩
  · rintro l1 ⟨y, hy, hact⟩
    rw [append_assoc]
    exact h now _ _ rfl ⟨y, mem_append_right _ hy, hact⟩

/-! ### The requests -/

variable {claims : Claims} {r : Response}

theorem known_hand {presented : Option String}
    (h : ∃ x ∈ l, ∃ origin, minted x = some (origin, claims) ∧ (presented = none → origin = none)) :
    Known site τ (do hand claims presented; pure r) l fun _ _ => True := by
  refine spec_other_bind (knows_effect ?_ (by simp)) fun _ _ _ _ _ => trivial
  rintro claims presented ⟨⟩
  exact h

theorem known_allow (hverified : ∃ x ∈ l, verified x = some claims)
    (h : claims.sid ≠ "" → Judged l claims site) :
    Known site τ (do allow claims; pure r) l fun _ _ => True := by
  refine spec_other_bind (knows_effect (by simp) ?_) fun _ _ _ _ _ => trivial
  rintro claims ⟨⟩
  exact ⟨hverified, h⟩

theorem known_signIn (username : String) (rememberSeconds : Nat) (refreshHash : String)
    (limits : Limits) :
    Known site τ (Routes.signIn site username rememberSeconds refreshHash limits) l
      fun _ _ => True := by
  refine spec_other_bind (knows_other (by simp) (by simp)) fun _ s t claims _ => ?_
  cases claims with
  | none => trivial
  | some claims =>
    have hminted : ∃ x ∈ l ++ [(⟨τ, .other (.mint username rememberSeconds none),
      some claims, s, t⟩ :
        RequestStep)], minted x = some (none, claims) :=
      ⟨_, mem_append_right _ mem_cons_self, rfl⟩
    refine spec_bind (known_create ⟨claims, rfl, .inl hminted⟩ fun _ _ l1 _ _ => ?_)
    obtain ⟨x, hx, hx'⟩ := hminted
    exact known_hand ⟨x, mem_append_left _ hx, none, hx', fun _ => rfl⟩

variable {row : Row}

theorem known_rotate (presented : String) (limits : Limits) (hrow : row.isSentinel = false) :
    Known site τ (Routes.rotate site presented limits row) l fun _ _ => True := by
  refine known_moment fun now y _ => ?_
  cases isActive limits row now with
  | some reason => trivial
  | none =>
    refine spec_other_bind (knows_other (by simp) (by simp)) fun _ s t claims _ => ?_
    cases claims with
    | none => trivial
    | some claims =>
      refine spec_other_bind (knows_other (by simp) (by simp)) fun _ u v drawn _ => ?_
      have hminted : ∃ x ∈ l ++ [y] ++ [(⟨τ, .other (.mint row.username
          (Routes.remaining limits row now) (some row.sid)), some claims, s, t⟩ : RequestStep)] ++
          [⟨τ, .other .draw, drawn, u, v⟩], minted x = some (some row.sid, claims) :=
        ⟨_, mem_append_left _ (mem_append_right _ mem_cons_self), rfl⟩
      obtain ⟨x, hx, hx'⟩ := hminted
      refine spec_bind (known_mutate ?_ fun l1 _ => ?_)
      · intro l' e current value hl' hcomputed
        exact {
          computed := hcomputed
          noPut := by intro value h; cases h
          creates := by intro row redeems e current value h; cases h
          rotates := by
            intro oldSid newSid newHash idle redeems e current value h
            cases h
            exact ⟨hrow, x, hl'.subset hx, claims, hx', rfl⟩
          hands := by intro claims presented h; cases h
          allows := by intro claims h; cases h }
      · exact known_hand ⟨x, mem_append_left _ hx, _, hx', by simp⟩

theorem known_refresh (presented : String) (limits : Limits) :
    Known site τ (Routes.refresh site presented limits) l fun _ _ => True := by
  unfold Routes.refresh
  dsimp only
  split
  · trivial
  refine spec_bind ?_
  unfold SessionStore.findByRefresh
  split
  · trivial
  refine known_load fun rows x _ => ?_
  cases hfind : (loaded rows).find? fun r =>
      !r.isSentinel && verifyRefresh site (site.strip presented) r.refreshHash with
  | some row =>
    have hrow := find?_some hfind
    rw [Bool.and_eq_true, Bool.not_eq_true'] at hrow
    exact known_rotate _ _ hrow.1
  | none =>
    refine known_load fun rows x _ => ?_
    cases (loaded rows).find? fun r =>
        !r.isSentinel && verifyRefresh site (site.strip presented) r.refreshPrevHash with
    | some row => exact spec_bind (known_change (by simp) (by simp) fun _ => trivial)
    | none => trivial

theorem tvFrom_loaded (rows : List Row) (username : String) :
    tvFrom site (loaded rows) username = tvFrom site rows username := by
  have hkey : tvKey site username ≠ "" := by
    intro h
    have hlen := congrArg String.length h
    simp only [tvKey, sentinelMark, String.length_append, String.length_empty] at hlen
    have hmark : "__tv__:".length = 7 := by decide
    omega
  unfold tvFrom loaded
  rw [find?_filter]
  congr 3
  funext r
  by_cases hr : r.sid = tvKey site username
  · simp [hr, hkey]
  · simp [hr]

variable {rows : List Row}

theorem of_find_some (h : find (loaded rows) sid = some row) : row ∈ rows ∧ row.sid = sid := by
  unfold find at h
  split at h
  · cases h
  · have hmem := mem_of_find?_eq_some h
    exact ⟨mem_of_mem_filter hmem, by simpa using find?_some h⟩

theorem of_find_none (h : find (loaded rows) sid = none) (hsid : sid ≠ "")
    (hsentinel : isSentinel sid = false) : ∀ row ∈ rows, row.sid ≠ sid := by
  intro row hrow heq
  unfold find at h
  rw [if_neg (by simp [hsid, hsentinel])] at h
  have hnone := find?_eq_none.mp h row
    (mem_filter.mpr ⟨hrow, by simp [heq, hsid]⟩)
  exact hnone (by simpa using heq)

theorem Judged.of_row (hversion : ∃ x ∈ l, ∃ rows, rowsRead x = some rows ∧
      tvFrom site rows claims.username ≤ claims.tv)
    (hrow : ∃ x ∈ l, ∃ rows, rowsRead x = some rows ∧
      ∃ row ∈ rows, row.sid = claims.sid ∧ row.revoked = false) (l1 : List RequestStep) :
    Judged (l ++ l1) claims site where
  version := by
    obtain ⟨x, hx, h⟩ := hversion
    exact ⟨x, mem_append_left _ hx, h⟩
  row := by
    obtain ⟨x, hx, h⟩ := hrow
    exact .inl ⟨x, mem_append_left _ hx, h⟩

theorem known_strictAuthority (limits : Limits) (hverified : ∃ x ∈ l, verified x = some claims) :
    Known site τ (Routes.strictAuthority site claims limits) l fun _ _ => True := by
  refine spec_get_bind (knows_read (.inl rfl)) fun current s _ => ?_
  cases current with
  | none => trivial
  | some d =>
    cases hfind : d.value.find? fun r => r.sid == claims.sid with
    | none => simp only [hfind]; trivial
    | some row =>
      simp only [hfind]
      split
      · trivial
      split
      · trivial
      rename_i hversion
      refine known_moment fun now y _ => ?_
      cases hactive : isActive limits row now with
      | some reason => trivial
      | none =>
        obtain ⟨x, hx, hx'⟩ := hverified
        refine known_allow ⟨x, by simp [hx], hx'⟩ fun _ => Judged.of_row ?_ ?_ [y]
        · refine ⟨_, mem_append_right _ mem_cons_self, d.value, rfl, ?_⟩
          exact Nat.le_of_eq (Classical.not_not.mp fun h => hversion (.inr h))
        · refine ⟨_, mem_append_right _ mem_cons_self, d.value, rfl, row,
            mem_of_find?_eq_some hfind, by simpa using find?_some hfind,
            revoked_of_isActive hactive⟩

theorem known_touch {idle : Nat}
    (h : ∀ l1, Q () (l ++ l1)) : Known site τ (SessionStore.touch site sid idle) l Q := by
  refine spec_bind (known_load fun rows x _ => known_moment fun now y _ => ?_)
  split
  · show Q () _
    rw [append_assoc]
    exact h _
  · refine known_change (by simp) (by simp) fun l1 => ?_
    rw [append_assoc, append_assoc]
    exact h _

theorem known_lazyRegister (limits : Limits) (hverified : ∃ x ∈ l, verified x = some claims)
    (hyoung : ∃ x ∈ l, ∃ now, clock x = some now ∧ issuedBeforePruneGrace claims now = false)
    (h : ∀ l1, (∃ x ∈ l1, registers claims x) → Q () (l ++ l1)) :
    Known site τ (Routes.lazyRegister site claims limits) l Q := by
  have hfrom : ∃ claims' : Claims, claims.sid = claims'.sid ∧
      ((∃ x ∈ l, minted x = some (none, claims')) ∨
        (∃ x ∈ l, verified x = some claims') ∧ "" = "" ∧
          ∃ x ∈ l, ∃ now, clock x = some now ∧ issuedBeforePruneGrace claims' now = false) :=
    ⟨claims, rfl, .inr ⟨hverified, rfl, hyoung⟩⟩
  unfold Routes.lazyRegister
  dsimp only
  split
  · refine known_create hfrom ?_
    rintro now row l1 rfl ⟨x, hx, e, current, value, hact⟩
    exact h l1 ⟨x, hx, _, e, current, value, hact, rfl, rfl⟩
  · refine known_create hfrom ?_
    rintro now row l1 rfl ⟨x, hx, e, current, value, hact⟩
    exact h l1 ⟨x, hx, _, e, current, value, hact, rfl, rfl⟩

theorem known_evaluateSession (limits : Limits) (hsid : claims.sid ≠ "")
    (hverified : ∃ x ∈ l, verified x = some claims) :
    Known site τ (Routes.evaluateSession site claims limits) l fun _ _ => True := by
  refine spec_bind (known_load fun rows x hx => ?_)
  refine spec_bind (known_load fun rows' y hy => ?_)
  rw [tvFrom_loaded]
  show Code.spec _ _ _ _ _ (if claims.tv < tvFrom site rows' claims.username then _ else _) _
  split
  · trivial
  rename_i hversion
  have hverified' : ∀ l1, ∃ z ∈ l ++ l1, verified z = some claims := by
    intro l1
    obtain ⟨z, hz, hz'⟩ := hverified
    exact ⟨z, mem_append_left _ hz, hz'⟩
  cases hfind : find (loaded rows) claims.sid with
  | none =>
    refine known_moment fun now z hz => ?_
    split
    · trivial
    rename_i hyoung
    simp only [append_assoc]
    refine spec_bind (known_lazyRegister limits (hverified' _)
      ⟨z, by simp, now, hz, by simpa using hyoung⟩ fun l1 hregisters => ?_)
    refine known_allow (by rw [append_assoc]; exact hverified' _) fun _ =>
      ⟨?_, .inr ⟨l, x, [y] ++ ([z] ++ l1), rows, ?_, hx, ?_, hverified, ?_, ?_⟩⟩
    · exact ⟨y, by simp, rows', hy, Nat.le_of_not_lt hversion⟩
    · simp
    · exact fun hsentinel => of_find_none hfind hsid hsentinel
    · exact ⟨z, by simp, now, hz, by simpa using hyoung⟩
    · obtain ⟨w, hw, hw'⟩ := hregisters
      exact ⟨w, by simp [hw], hw'⟩
  | some row =>
    obtain ⟨hmem, hrow⟩ := of_find_some hfind
    refine known_moment fun now z hz => ?_
    cases hactive : isActive limits row now with
    | some reason => trivial
    | none =>
      refine spec_bind (known_touch fun l1 => known_allow ?_ fun _ => Judged.of_row ?_ ?_ l1)
      · simp only [append_assoc]
        exact hverified' _
      · exact ⟨y, by simp, rows', hy, Nat.le_of_not_lt hversion⟩
      · exact ⟨x, by simp, rows, hx, row, hmem, hrow, revoked_of_isActive hactive⟩

theorem known_evaluate (claims : Claims) (limits : Limits) (closed : Bool) :
    Known site τ (Routes.evaluate site claims limits closed) l fun _ _ => True := by
  refine spec_other_bind (knows_other (by simp) (by simp)) fun _ s t ok _ => ?_
  cases ok with
  | false => trivial
  | true =>
    have hverified : ∃ x ∈ l ++ [(⟨τ, .other (.verify claims), true, s, t⟩ : RequestStep)],
        verified x = some claims := ⟨_, mem_append_right _ mem_cons_self, rfl⟩
    by_cases hsid : claims.sid = ""
    · simp only [hsid]
      exact known_allow hverified fun h => absurd hsid h
    · simp only [hsid]
      cases closed with
      | true => exact known_strictAuthority limits hverified
      | false => exact known_evaluateSession limits hsid hverified

/-- **Every request knows what it acts on.** -/
theorem known_code (τ : Nat) (n : Request) : Known site τ (n.code site) [] fun _ _ => True := by
  have hchange : ∀ c : Change, (∀ row, c ≠ .create row) →
      (∀ oldSid newSid newHash idle, c ≠ .rekeyAndRotate oldSid newSid newHash idle) →
      Known site τ (Routes.change site c) [] fun _ _ => True := fun c hcreate hrekey =>
    spec_bind (known_change hcreate hrekey fun _ => trivial)
  cases n with
  | signIn username rememberSeconds refreshHash limits => exact known_signIn _ _ _ _
  | refresh presented limits => exact known_refresh presented limits
  | evaluate claims limits closed => exact known_evaluate claims limits closed
  | revoke sid | revokeAll username exceptSid | revokeOthers username keepSid =>
    exact hchange _ (by simp) (by simp)
  | prune => exact hchange _ (by simp) (by simp)

end Rules

/-! ### What the changes do to the rows -/

variable {site : Site} {now : Nat} {rows : List Row} {p : Row → Bool} {f : Row → Row}

theorem bound_subperm (now : Nat) (rows : List Row) : (bound now rows).Subperm rows := by
  have hprune : (pruneRows now rows).Sublist rows := filter_sublist
  unfold bound
  dsimp only
  split
  · exact ((drop_sublist _ _).subperm.trans (mergeSort_perm _ _).subperm).trans
      hprune.subperm
  · exact hprune.subperm

variable {rows' : List Row}

theorem nodup_of_subperm (h : rows'.Subperm rows) (hnodup : (rows.map Row.sid).Nodup) :
    (rows'.map Row.sid).Nodup := by
  obtain ⟨l, hperm, hsub⟩ := h
  exact (hperm.map Row.sid).nodup_iff.mp ((hsub.map Row.sid).nodup hnodup)

theorem map_updateFirst {β : Type} (g : Row → β) (h : ∀ r, p r = true → g (f r) = g r) :
    (updateFirst p f rows).map g = rows.map g := by
  induction rows with
  | nil => rfl
  | cons r rs ih =>
    unfold updateFirst
    by_cases hr : p r = true
    · rw [if_pos hr, map_cons, map_cons, h r hr]
    · rw [if_neg hr, map_cons, map_cons, ih]

variable {r' : Row}

theorem mem_updateFirst (h : r' ∈ updateFirst p f rows) :
    r' ∈ rows ∨ ∃ r ∈ rows, p r = true ∧ r' = f r := by
  induction rows with
  | nil => cases h
  | cons r rs ih =>
    unfold updateFirst at h
    by_cases hr : p r = true
    · rw [if_pos hr] at h
      rcases mem_cons.mp h with rfl | h
      · exact .inr ⟨r, mem_cons_self, hr, rfl⟩
      · exact .inl (mem_cons_of_mem _ h)
    · rw [if_neg hr] at h
      rcases mem_cons.mp h with rfl | h
      · exact .inl mem_cons_self
      · rcases ih h with hmem | ⟨r0, hmem, hp, heq⟩
        · exact .inl (mem_cons_of_mem _ hmem)
        · exact .inr ⟨r0, mem_cons_of_mem _ hmem, hp, heq⟩

theorem mem_updateFirst_sid {sid : String} (hnodup : (rows.map Row.sid).Nodup)
    (h : r' ∈ updateFirst (fun r => r.sid == sid) f rows) :
    (r' ∈ rows ∧ r'.sid ≠ sid) ∨ ∃ r ∈ rows, r.sid = sid ∧ r' = f r := by
  induction rows with
  | nil => cases h
  | cons r rs ih =>
    rw [map_cons, nodup_cons] at hnodup
    unfold updateFirst at h
    by_cases hr : r.sid = sid
    · rw [if_pos (by simpa using hr)] at h
      rcases mem_cons.mp h with rfl | h
      · exact .inr ⟨r, mem_cons_self, hr, rfl⟩
      · refine .inl ⟨mem_cons_of_mem _ h, fun heq => ?_⟩
        exact hnodup.1 (mem_map.mpr ⟨r', h, heq.trans hr.symm⟩)
    · rw [if_neg (by simpa using hr)] at h
      rcases mem_cons.mp h with rfl | h
      · exact .inl ⟨mem_cons_self, hr⟩
      · rcases ih hnodup.2 h with ⟨hmem, hne⟩ | ⟨r0, hmem, hsid, heq⟩
        · exact .inl ⟨mem_cons_of_mem _ hmem, hne⟩
        · exact .inr ⟨r0, mem_cons_of_mem _ hmem, hsid, heq⟩

theorem updateFirst_of_none (h : ∀ r ∈ rows, p r = false) : updateFirst p f rows = rows := by
  induction rows with
  | nil => rfl
  | cons r rs ih =>
    unfold updateFirst
    rw [if_neg (by simp [h r mem_cons_self]),
      ih fun r' hr' => h r' (mem_cons_of_mem _ hr')]

theorem mem_updateFirst_of_mem {r : Row} (h : r ∈ rows) :
    r ∈ updateFirst p f rows ∨ p r = true ∧ f r ∈ updateFirst p f rows := by
  induction rows with
  | nil => cases h
  | cons r0 rs ih =>
    unfold updateFirst
    by_cases hr : p r0 = true
    · rw [if_pos hr]
      rcases mem_cons.mp h with rfl | h
      · exact .inr ⟨hr, mem_cons_self⟩
      · exact .inl (mem_cons_of_mem _ h)
    · rw [if_neg hr]
      rcases mem_cons.mp h with rfl | h
      · exact .inl mem_cons_self
      · rcases ih h with hmem | ⟨hp, hmem⟩
        · exact .inl (mem_cons_of_mem _ hmem)
        · exact .inr ⟨hp, mem_cons_of_mem _ hmem⟩

theorem nodup_updateFirst {newSid : String} (hnodup : (rows.map Row.sid).Nodup)
    (hf : ∀ r, (f r).sid = newSid) (hnew : newSid ∉ rows.map Row.sid) :
    ((updateFirst p f rows).map Row.sid).Nodup := by
  induction rows with
  | nil => exact nodup_nil
  | cons r rs ih =>
    rw [map_cons, nodup_cons] at hnodup
    rw [map_cons, mem_cons, not_or] at hnew
    unfold updateFirst
    by_cases hr : p r = true
    · rw [if_pos hr, map_cons, hf]
      exact nodup_cons.mpr ⟨hnew.2, hnodup.2⟩
    · rw [if_neg hr, map_cons]
      refine nodup_cons.mpr ⟨fun hmem => ?_, ih hnodup.2 hnew.2⟩
      obtain ⟨r', hr', heq⟩ := mem_map.mp hmem
      rcases mem_updateFirst hr' with hold | ⟨r0, -, -, rfl⟩
      · exact hnodup.1 (mem_map.mpr ⟨r', hold, heq⟩)
      · exact hnew.1 ((hf r0).symm.trans heq)

/-! ### The changes -/

structure Row.Kept (r r' : Row) : Prop where
  sid : r'.sid = r.sid
  refreshHash : r'.refreshHash = r.refreshHash
  revoked : r.revoked = true → r'.revoked = true

theorem Row.Kept.refl (r : Row) : r.Kept r := ⟨rfl, rfl, id⟩

theorem map_kept {g : Row → Row} (hg : ∀ r : Row, r.Kept (g r)) :
    (rows.map g).map Row.sid = rows.map Row.sid := by
  rw [map_map]
  exact map_congr_left fun r _ => (hg r).sid

theorem revoke_kept {q : Row → Bool} (r : Row) : r.Kept (if q r then r.revoke now else r) := by
  split
  · exact ⟨rfl, rfl, fun _ => rfl⟩
  · exact Row.Kept.refl r

inductive Change.Row (site : Site) (now : Nat) (c : Change) (rows : List Row)
    (r' : Row) : Prop where
  | created (change : c = .create r')
  | rekeyed (oldSid newSid newHash : String) (idle : Nat) (r : Sessions.Row)
      (change : c = .rekeyAndRotate oldSid newSid newHash idle) (mem : r ∈ rows)
      (sid : r.sid = oldSid) (rekey : r' = r.rekey now newSid newHash idle)
  | sentinel (username : String) (sid : r'.sid = tvKey site username) (hash : r'.refreshHash = "")
      (revoked : r'.revoked = false)
  | kept (r : Sessions.Row) (mem : r ∈ rows) (kept : r.Kept r')
      (create : ∀ row, c = .create row → r.sid ≠ row.sid)
      (rekey : ∀ oldSid newSid newHash idle, c = .rekeyAndRotate oldSid newSid newHash idle →
        r.sid ≠ oldSid)

theorem mem_bumpVersion {username : String} (h : r' ∈ bumpVersion site username rows) :
    (∃ r ∈ rows, r.Kept r') ∨
      r'.sid = tvKey site username ∧ r'.refreshHash = "" ∧ r'.revoked = false := by
  unfold bumpVersion at h
  split at h
  · rcases mem_updateFirst h with hmem | ⟨r, hmem, -, rfl⟩
    · exact .inl ⟨r', hmem, Row.Kept.refl r'⟩
    · exact .inl ⟨r, hmem, rfl, rfl, id⟩
  · rcases mem_append.mp h with hmem | hmem
    · exact .inl ⟨r', hmem, Row.Kept.refl r'⟩
    · rw [mem_singleton.mp hmem]
      exact .inr ⟨rfl, rfl, rfl⟩

variable {c : Change}

/-- **What a row of the changed registry is.** -/
theorem mem_edit (hnodup : (rows.map Row.sid).Nodup) (h : r' ∈ c.edit site now rows) :
    c.Row site now rows r' := by
  cases c with
  | create row =>
    have hkept : ∀ r ∈ rows, r.sid ≠ row.sid → (Change.create row).Row site now rows r :=
      fun r hr hne => .kept r hr (Row.Kept.refl r) (by rintro _ ⟨⟩; exact hne) (by simp)
    simp only [Change.edit] at h
    split at h
    · rcases mem_updateFirst_sid hnodup h with ⟨hmem, hne⟩ | ⟨r, -, -, rfl⟩
      · exact hkept r' hmem hne
      · exact .created rfl
    · rename_i hnone
      rcases mem_append.mp h with hmem | hmem
      · refine hkept r' hmem fun heq => hnone ?_
        exact any_eq_true.mpr ⟨r', hmem, by simpa using heq⟩
      · rw [mem_singleton.mp hmem]
        exact .created rfl
  | touch sid idle =>
    rcases mem_updateFirst h with hmem | ⟨r, hmem, -, rfl⟩
    · exact .kept r' hmem (Row.Kept.refl r') (by simp) (by simp)
    · refine .kept r hmem ?_ (by simp) (by simp)
      split
      · exact Row.Kept.refl r
      · exact ⟨rfl, rfl, id⟩
  | rekeyAndRotate oldSid newSid newHash idle =>
    rcases mem_updateFirst_sid hnodup h with ⟨hmem, hne⟩ | ⟨r, hmem, hsid, rfl⟩
    · exact .kept r' hmem (Row.Kept.refl r') (by simp) (by rintro _ _ _ _ ⟨⟩; exact hne)
    · exact .rekeyed oldSid newSid newHash idle r rfl hmem hsid rfl
  | revoke sid =>
    rcases mem_updateFirst h with hmem | ⟨r, hmem, -, rfl⟩
    · exact .kept r' hmem (Row.Kept.refl r') (by simp) (by simp)
    · exact .kept r hmem ⟨rfl, rfl, fun _ => rfl⟩ (by simp) (by simp)
  | revokeAll username exceptSid =>
    rcases mem_bumpVersion h with ⟨r, hmem, hkept⟩ | ⟨hsid, hhash, hrevoked⟩
    · obtain ⟨r0, hmem0, rfl⟩ := mem_map.mp hmem
      have hr0 := @revoke_kept now (fun r => r.another site username exceptSid) r0
      refine .kept r0 hmem0 ⟨hkept.sid.trans hr0.sid, hkept.refreshHash.trans hr0.refreshHash,
        fun h => hkept.revoked (hr0.revoked h)⟩ (by simp) (by simp)
    · exact .sentinel username hsid hhash hrevoked
  | revokeOthers username keepSid =>
    obtain ⟨r, hmem, rfl⟩ := mem_map.mp h
    exact .kept r hmem (revoke_kept r) (by simp) (by simp)
  | prune => exact .kept r' h (Row.Kept.refl r') (by simp) (by simp)

theorem nodup_of_map (h : rows'.map Row.sid = rows.map Row.sid)
    (hnodup : (rows.map Row.sid).Nodup) : (rows'.map Row.sid).Nodup :=
  h ▸ hnodup

theorem nodup_edit (hnodup : (rows.map Row.sid).Nodup)
    (hrekey : ∀ oldSid newSid newHash idle, c = .rekeyAndRotate oldSid newSid newHash idle →
      (∃ r ∈ rows, r.sid = oldSid) → newSid ∉ rows.map Row.sid) :
    ((c.edit site now rows).map Row.sid).Nodup := by
  have happend : ∀ row : Row, (rows.any fun r => r.sid == row.sid) = false →
      ((rows ++ [row]).map Row.sid).Nodup := by
    intro row hnone
    rw [map_append, nodup_append]
    refine ⟨hnodup, nodup_singleton _, ?_⟩
    intro a ha b hb heq
    obtain ⟨r, hr, rfl⟩ := mem_map.mp ha
    rw [map_singleton, mem_singleton] at hb
    have hne := any_eq_false.mp hnone r hr
    exact hne (by simpa using heq.trans hb)
  cases c with
  | create row =>
    simp only [Change.edit]
    split
    · rw [map_updateFirst Row.sid fun r hr => (beq_iff_eq.mp hr).symm]
      exact hnodup
    · rename_i hnone
      exact happend row (by simpa using hnone)
  | touch sid idle =>
    simp only [Change.edit]
    rw [map_updateFirst Row.sid (by intro r _; split <;> rfl)]
    exact hnodup
  | rekeyAndRotate oldSid newSid newHash idle =>
    by_cases hold : ∃ r ∈ rows, r.sid = oldSid
    · exact nodup_updateFirst hnodup (fun _ => rfl) (hrekey _ _ _ _ rfl hold)
    · simp only [Change.edit]
      rw [updateFirst_of_none]
      · exact hnodup
      · intro r hr
        simpa using fun heq => hold ⟨r, hr, heq⟩
  | revoke sid => exact nodup_of_map (map_updateFirst Row.sid fun _ _ => rfl) hnodup
  | revokeAll username exceptSid =>
    have hmap : (rows.map fun r => if r.another site username exceptSid then r.revoke
      now else r).map
        Row.sid = rows.map Row.sid := map_kept fun r => revoke_kept r
    simp only [Change.edit, bumpVersion]
    split
    · exact nodup_of_map (map_updateFirst Row.sid fun _ _ => rfl) (nodup_of_map hmap hnodup)
    · rename_i hnone
      have hany : (rows.any fun r => r.sid == tvKey site username) = false := by
        rw [any_eq_false]
        intro r hr heq
        refine hnone (any_eq_true.mpr ⟨_, mem_map.mpr ⟨r, hr, rfl⟩, ?_⟩)
        rw [(revoke_kept r).sid]
        exact heq
      have hadd := happend { sid := tvKey site username, username, tokenVersion := 1 } hany
      rw [map_append] at hadd ⊢
      rw [hmap]
      exact hadd
  | revokeOthers username keepSid =>
    simp only [Change.edit]
    rw [map_kept fun r => revoke_kept r]
    exact hnodup
  | prune => exact hnodup

end AgenticKibana.Sessions
