import AgenticKibana.Sessions.Registry

/-!
# A refresh token is redeemed once

A refresh token is redeemed by the rotation that takes its hash away.  The rotation
re-keys whatever row carries the name that was looked up, and nobody looks at whether it
found one, so single use holds as long as a refresh hands its token out only after it
re-keyed the row that still carried the token.
-/

namespace AgenticKibana.Sessions

open AgenticKibana.Library AgenticKibana.Stores List

variable {site : Site}

def answered (x : RequestStep) : Option String :=
  match x.act with
  | .other (.hand _ presented) => presented
  | _ => none

/-- A hash that verifies no refresh token that was redeemed or that belongs to a stored row: the
token it was made of is fresh. -/
def Unguessed (site : Site) (c : Requests) (hash : String) : Prop :=
  ∀ token, verifyRefresh site token hash = true →
    (∀ p ∈ redeemed c.trace, p.2.1 ≠ token) ∧
      ∀ row ∈ c.state.doc.value, verifyRefresh site token row.refreshHash = false

/-- A rotation that takes effect re-keys a row that still carries the token it redeems, and new
refresh tokens are fresh. -/
def Carries (site : Site) (c : Requests) (move : RequestMove) : Prop :=
  match Service.action c move with
  | some (_, .putIf ⟨.rekeyAndRotate oldSid _ newHash _, redeems⟩ _ current _) =>
    c.state.doc.rev = revOf current →
      (∀ presented, redeems = some presented → ∀ row ∈ c.state.doc.value, row.sid = oldSid →
        verifyRefresh site presented row.refreshHash = true) ∧ Unguessed site c newHash
  | some (_, .putIf ⟨.create row, _⟩ _ current _) =>
    c.state.doc.rev = revOf current → Unguessed site c row.refreshHash
  | _ => True

def RedeemRun (site : Site) (c : Requests) (move : RequestMove) : Prop :=
  Rotates c move ∧ Carries site c move

/-! ### Counting the hashes that verify a token -/

def live (site : Site) (token : String) (rows : List Row) : Nat :=
  rows.countP fun r => verifyRefresh site token r.refreshHash

def timesRedeemed (token : String) (trace : List RequestStep) : Nat :=
  (redeemed trace).countP fun p => p.2.1 == token

theorem countP_updateFirst {q p : Row → Bool} {f : Row → Row} (rows : List Row) :
    (∃ r ∈ rows, p r = true ∧ (updateFirst p f rows).countP q + (q r).toNat =
      rows.countP q + (q (f r)).toNat) ∨
      updateFirst p f rows = rows ∧ ∀ r ∈ rows, p r = false := by
  induction rows with
  | nil => exact .inr ⟨rfl, fun r hr => absurd hr not_mem_nil⟩
  | cons r rs ih =>
    unfold updateFirst
    by_cases hr : p r = true
    · rw [if_pos hr]
      refine .inl ⟨r, mem_cons_self, hr, ?_⟩
      rw [countP_cons, countP_cons]
      cases q r <;> cases q (f r) <;> simp
    · rw [if_neg hr]
      rcases ih with ⟨r₀, hmem, hp, hcount⟩ | ⟨heq, hnone⟩
      · refine .inl ⟨r₀, mem_cons_of_mem _ hmem, hp, ?_⟩
        rw [countP_cons, countP_cons]
        omega
      · refine .inr ⟨by rw [heq], fun r' hr' => ?_⟩
        rcases mem_cons.mp hr' with rfl | hr'
        · simpa using hr
        · exact hnone r' hr'

theorem live_of_map {rows rows' : List Row} (token : String)
    (h : rows'.map Row.refreshHash = rows.map Row.refreshHash) :
    live site token rows' = live site token rows := by
  have hmap : ∀ rs : List Row, live site token rs =
      (rs.map Row.refreshHash).countP fun hash => verifyRefresh site token hash := by
    intro rs
    rw [countP_map]
    rfl
  rw [hmap, hmap, h]

theorem live_bound (token : String) (now : Nat) (rows : List Row) :
    live site token (bound now rows) ≤ live site token rows :=
  (bound_subperm now rows).countP_le _

variable {now : Nat}

theorem live_edit (token : String) {c : Change} (rows : List Row)
    (hrekey : ∀ oldSid newSid newHash idle, c = .rekeyAndRotate oldSid newSid newHash idle →
      ∀ r ∈ rows, r.sid ≠ oldSid) : live site token (c.edit site now rows) ≤ live site token rows ∨
      ∃ row, c = .create row ∧ verifyRefresh site token row.refreshHash = true ∧
        live site token (c.edit site now rows) ≤ live site token rows + 1 := by
  have hrevoke : ∀ q : Row → Bool,
      (rows.map fun r => if q r then r.revoke now else r).map Row.refreshHash =
        rows.map Row.refreshHash := by
    intro q
    rw [map_map]
    refine map_congr_left fun r _ => ?_
    exact (revoke_kept r).refreshHash
  cases c with
  | create row =>
    have hadd : live site token (Change.create row |>.edit site now rows) ≤
        live site token rows + (verifyRefresh site token row.refreshHash).toNat := by
      simp only [Change.edit]
      split
      · rcases @countP_updateFirst (fun r => verifyRefresh site token r.refreshHash)
          (fun r => r.sid == row.sid) (fun _ => row) rows with ⟨r, -, -, hcount⟩ | ⟨heq, -⟩
        · unfold live
          omega
        · rw [heq]
          exact Nat.le_add_right _ _
      · unfold live
        rw [countP_append, countP_singleton]
        cases verifyRefresh site token row.refreshHash <;> simp
    cases hv : verifyRefresh site token row.refreshHash with
    | false =>
      rw [hv] at hadd
      exact .inl hadd
    | true =>
      rw [hv] at hadd
      exact .inr ⟨row, rfl, hv, hadd⟩
  | touch sid idle =>
    refine .inl (Nat.le_of_eq (live_of_map token (map_updateFirst Row.refreshHash ?_)))
    intro r _
    split <;> rfl
  | rekeyAndRotate oldSid newSid newHash idle =>
    refine .inl (Nat.le_of_eq ?_)
    simp only [Change.edit]
    rw [updateFirst_of_none]
    intro r hr
    simpa using hrekey _ _ _ _ rfl r hr
  | revoke sid =>
    exact .inl (Nat.le_of_eq (live_of_map token (map_updateFirst Row.refreshHash fun _ _ => rfl)))
  | revokeAll username exceptSid =>
    have hmap := @live_of_map site _ _ token (hrevoke fun r => r.another site username exceptSid)
    refine .inl (Nat.le_of_eq ?_)
    simp only [Change.edit, bumpVersion]
    split
    · refine Eq.trans ?_ hmap
      exact live_of_map token (map_updateFirst Row.refreshHash fun _ _ => rfl)
    · unfold live at hmap ⊢
      rw [countP_append, hmap, countP_singleton]
      simp
  | revokeOthers username keepSid =>
    exact .inl (Nat.le_of_eq (live_of_map token (hrevoke fun r => r.another site username keepSid)))
  | prune => exact .inl (Nat.le_refl _)

theorem live_edit_le (token : String) {c : Change} (rows : List Row)
    (hcreate : ∀ row, c ≠ .create row)
    (hrekey : ∀ oldSid newSid newHash idle, c ≠ .rekeyAndRotate oldSid newSid newHash idle) :
    live site token (c.edit site now rows) ≤ live site token rows := by
  rcases live_edit token rows fun _ _ _ _ h => absurd h (hrekey _ _ _ _) with h | ⟨row, hrow, -⟩
  · exact h
  · exact absurd hrow (hcreate row)

theorem live_rekey (token : String) {oldSid newSid newHash : String} {idle : Nat}
    (rows : List Row) : (∃ r ∈ rows, r.sid = oldSid ∧
      live site token ((Change.rekeyAndRotate oldSid newSid newHash idle).edit site now rows) +
        (verifyRefresh site token r.refreshHash).toNat =
        live site token rows + (verifyRefresh site token newHash).toNat) ∨
      (Change.rekeyAndRotate oldSid newSid newHash idle).edit site now rows = rows ∧
        ∀ r ∈ rows, r.sid ≠ oldSid := by
  rcases @countP_updateFirst (fun r => verifyRefresh site token r.refreshHash)
    (fun r => r.sid == oldSid) (Row.rekey now newSid newHash idle)
      rows with ⟨r, hr, hsid, h⟩ | ⟨h, hnone⟩
  · exact .inl ⟨r, hr, by simpa using hsid, h⟩
  · exact .inr ⟨h, fun r hr => by simpa using hnone r hr⟩

theorem eq_of_countP_le_one {β : Type} {q : β → Bool} {rows : List β} (h : rows.countP q ≤ 1)
    {r r' : β} (hr : r ∈ rows) (hr' : r' ∈ rows) (hq : q r = true) (hq' : q r' = true) :
      r = r' := by
  rw [countP_eq_length_filter] at h
  have hmem : r ∈ rows.filter q := mem_filter.mpr ⟨hr, hq⟩
  have hmem' : r' ∈ rows.filter q := mem_filter.mpr ⟨hr', hq'⟩
  cases hfilter : rows.filter q with
  | nil =>
    rw [hfilter] at hmem
    cases hmem
  | cons r₀ rs =>
    rw [hfilter, length_cons] at h
    have hrs : rs = [] := length_eq_zero_iff.mp (by omega)
    rw [hfilter, hrs, mem_singleton] at hmem hmem'
    rw [hmem, hmem']

/-! ### The invariant -/

structure RedeemedWell (site : Site) (trace : List RequestStep) (s : Shared) : Prop where
  once : ∀ token, live site token s.doc.value + timesRedeemed token trace ≤ 1
  answers : ∀ x ∈ trace, ∀ token, answered x = some token →
    ∃ sid, (x.thread, token, sid) ∈ redeemed trace

section Steps

variable {trace : List RequestStep} {x : RequestStep}

theorem redeemed_snoc (trace : List RequestStep) (x : RequestStep) :
    redeemed (trace ++ [x]) = redeemed trace ++ (redemption x).toList := by
  unfold redeemed
  rw [filterMap_append]
  cases h : redemption x with
  | none | some p => simp [h]

theorem RedeemedWell.keep (h : RedeemedWell site trace x.before) (hredemption : redemption x = none)
    (hlive : ∀ token, live site token x.after.doc.value ≤ live site token x.before.doc.value ∨
      live site token x.after.doc.value + timesRedeemed token trace ≤ 1)
    (hanswered : ∀ token, answered x = some token →
      ∃ sid, (x.thread, token, sid) ∈ redeemed trace) :
    RedeemedWell site (trace ++ [x]) x.after := by
  have hsame : redeemed (trace ++ [x]) = redeemed trace := by
    rw [redeemed_snoc, hredemption]
    exact append_nil _
  constructor
  · intro token
    have hle := h.once token
    unfold timesRedeemed at *
    rw [hsame]
    rcases hlive token with hlive | hlive
    · omega
    · exact hlive
  · intro y hy token htoken
    rw [hsame]
    rcases mem_append.mp hy with hy | hy
    · exact h.answers y hy token htoken
    · rw [mem_singleton.mp hy] at htoken ⊢
      exact hanswered token htoken

theorem RedeemedWell.rotate (h : RedeemedWell site trace x.before) {presented newSid : String}
    (hredemption : redemption x = some (x.thread, presented, newSid))
      (hanswered : answered x = none)
    (hspent : live site presented x.after.doc.value = 0 ∧ timesRedeemed presented trace = 0)
    (hother : ∀ token, token ≠ presented →
      live site token x.after.doc.value + timesRedeemed token trace ≤ 1) :
    RedeemedWell site (trace ++ [x]) x.after := by
  constructor
  · intro token
    have htimes : timesRedeemed token (trace ++ [x]) =
        timesRedeemed token trace + if presented = token then 1 else 0 := by
      unfold timesRedeemed
      rw [redeemed_snoc, hredemption, countP_append]
      simp [countP_cons]
    rw [htimes]
    by_cases heq : presented = token
    · rw [if_pos heq, ← heq, hspent.1, hspent.2]
    · rw [if_neg heq]
      exact hother token fun h => heq h.symm
  · intro y hy token htoken
    rw [redeemed_snoc]
    rcases mem_append.mp hy with hy | hy
    · obtain ⟨sid, hsid⟩ := h.answers y hy token htoken
      exact ⟨sid, mem_append_left _ hsid⟩
    · rw [mem_singleton.mp hy, hanswered] at htoken
      cases htoken

variable {token : String} {rows : List Row}

theorem live_pos {r : Row} (hr : r ∈ rows) (hv : verifyRefresh site token r.refreshHash = true) :
    0 < live site token rows :=
  countP_pos_iff.mpr ⟨r, hr, hv⟩

theorem live_eq_zero (h : ∀ r ∈ rows, verifyRefresh site token r.refreshHash = false) :
    live site token rows = 0 :=
  countP_eq_zero.mpr fun r hr => by simp [h r hr]

theorem times_eq_zero (h : ∀ p ∈ redeemed trace, p.2.1 ≠ token) : timesRedeemed token trace = 0 :=
  countP_eq_zero.mpr fun p hp => by simpa using h p hp

end Steps

section Rekeying

variable {site : Site} {token oldSid newSid newHash : String} {idle now n : Nat}
  {rows base : List Row}

/-- A re-key adds no row that carries a token, except where the new hash is its first trace. -/
theorem live_rekey_le (hread : live site token base ≤ live site token rows)
    (hfresh : verifyRefresh site token newHash = true → live site token rows = 0 ∧ n = 0) :
    let rekeyed := (Change.rekeyAndRotate oldSid newSid newHash idle).edit site now base
    live site token rekeyed ≤ live site token rows ∨ live site token rekeyed + n ≤ 1 := by
  intro rekeyed
  rcases @live_rekey site now token oldSid newSid newHash idle base with
    ⟨r, -, -, hcount⟩ | ⟨hsame, -⟩
  · change live site token rekeyed + _ = _ at hcount
    cases hv : verifyRefresh site token newHash with
    | true =>
      obtain ⟨hzero, hn⟩ := hfresh hv
      rw [hv, Bool.toNat_true] at hcount
      omega
    | false =>
      rw [hv, Bool.toNat_false] at hcount
      omega
  · exact .inl (by rw [show rekeyed = base from hsame]; exact hread)

/-- The row that carried the token is re-keyed, or was not read: nothing carries it afterwards. -/
theorem live_rekey_eq_zero (hone : live site token rows ≤ 1) (hbase : base.Sublist rows) {row : Row}
    (hrow : row ∈ rows) (hsid : row.sid = oldSid)
    (hcarries : ∀ r ∈ rows, r.sid = oldSid → verifyRefresh site token r.refreshHash = true)
    (hfresh : verifyRefresh site token newHash = true → live site token rows = 0) :
    live site token ((Change.rekeyAndRotate oldSid newSid newHash idle).edit site now
      base) = 0 := by
  have hpos := live_pos hrow (hcarries row hrow hsid)
  have hread : live site token base ≤ live site token rows := hbase.countP_le
  rcases @live_rekey site now token oldSid newSid newHash idle base with
    ⟨r, hr, hr', hcount⟩ | ⟨hsame, hnone⟩
  · have hvn : verifyRefresh site token newHash = false := by
      by_contra hv
      have hzero := hfresh (by simpa using hv)
      omega
    rw [hcarries r (hbase.subset hr) hr', hvn, Bool.toNat_true, Bool.toNat_false] at hcount
    omega
  · rw [hsame]
    refine live_eq_zero fun r hr => ?_
    by_contra hvr
    have heq := eq_of_countP_le_one hone (hbase.subset hr) hrow (by simpa using hvr)
      (hcarries row hrow hsid)
    exact hnone r hr (heq ▸ hsid)

end Rekeying

variable {c : Requests}

theorem redeemedWell_of_reaches (h : (requestMachine site).Reaches (RedeemRun site) c) :
    RedeemedWell site c.trace c.state := by
  refine Service.trace_induction (P := fun _ => Knows site) known_code ?_ ?_ h
  · rintro s ⟨hrows, -, -⟩
    refine ⟨fun token => ?_, fun x hx => absurd hx not_mem_nil⟩
    rw [hrows]
    exact Nat.zero_le _
  · intro c τ answer n a k t r hc hI hτ hknows hG hserve
    have hkeep : t.doc = c.state.doc → redemption ⟨τ, a, r, c.state, t⟩ = none →
        (∀ token, answered ⟨τ, a, r, c.state, t⟩ = some token →
          ∃ sid, (τ, token, sid) ∈ redeemed c.trace) →
        RedeemedWell site (c.trace ++ [⟨τ, a, r, c.state, t⟩]) t := by
      intro hdoc hredemption hanswered
      exact hI.keep hredemption (fun token => .inl (by rw [hdoc])) hanswered
    cases a with
    | get => exact hkeep (congrArg State.doc (serve_get hserve).1) rfl fun token h => by cases h
    | moment => exact hkeep (congrArg State.doc (serve_moment hserve)) rfl fun token h => by cases h
    | put value => exact absurd rfl (hknows.noPut value)
    | other y =>
      have hdoc := leavesDocument τ y _ _ _ _ hserve
      refine hkeep hdoc rfl ?_
      cases y with
      | hand claims presented =>
        rintro token htoken
        cases presented with
        | none => cases htoken
        | some token' =>
          cases htoken
          have hrotates := hG.1
          simp only [Rotates, Service.action, hτ] at hrotates
          exact ⟨_, hrotates⟩
      | _ =>
        intro token htoken
        cases htoken
    | putIf w e current value =>
      obtain ⟨change, redeems⟩ := w
      obtain ⟨hrest, hdoc⟩ := serve_putIf hserve
      rcases hdoc with hdoc | ⟨hpass, hdoc⟩
      · have hrev : t.doc.rev = c.state.doc.rev := congrArg Document.rev hdoc
        refine hkeep hdoc ?_ fun token h => by cases h
        unfold redemption
        split
        · rename_i hact
          cases hact
          simp [rotation, hrev]
        · rfl
      have hrev : t.doc.rev ≠ c.state.doc.rev := by
        rw [hdoc, hpass]
        exact Nat.succ_ne_self _
      obtain ⟨base, hbase, hfrom, hrows⟩ :=
        rows_of_written (written_of_putIf hc hG hτ hserve) rfl hrev
      dsimp only at hbase hfrom hrows
      have hlive : ∀ token, live site token t.doc.value ≤
          live site token (change.edit site e base) := by
        intro token
        rw [hrows]
        exact live_bound token e _
      have hbelow : ∀ token, live site token base ≤ live site token c.state.doc.value :=
        fun token => hbase.countP_le
      have hcarries := hG.2
      -- a new hash that verifies a token is that token's only trace
      have hadded : ∀ token hash, Unguessed site c hash →
          verifyRefresh site token hash = true →
          live site token c.state.doc.value = 0 ∧ timesRedeemed token c.trace = 0 := by
        intro token hash hunguessed hv
        obtain ⟨hredeemed, hrows⟩ := hunguessed token hv
        exact ⟨live_eq_zero hrows, times_eq_zero hredeemed⟩
      cases change with
      | rekeyAndRotate oldSid newSid newHash idle =>
        simp only [Carries, Service.action, hτ] at hcarries
        obtain ⟨hcarries, hunguessed⟩ := hcarries hpass
        have hle : ∀ token, live site token t.doc.value ≤ live site token c.state.doc.value ∨
            live site token t.doc.value + timesRedeemed token c.trace ≤ 1 := by
          intro token
          have hrekeyed := @live_rekey_le site token oldSid newSid newHash idle e _ _ _
            (hbelow token) (hadded token newHash hunguessed)
          rcases hrekeyed with h | h
          · exact .inl ((hlive token).trans h)
          · exact .inr ((Nat.add_le_add_right (hlive token) _).trans h)
        cases redeems with
        | none => exact hI.keep rfl hle fun token h => by cases h
        | some presented =>
          by_cases hheld : ∃ row ∈ c.state.doc.value, row.sid = oldSid
          · obtain ⟨row, hrow, hsid⟩ := hheld
            have hv := hcarries presented rfl row hrow hsid
            have hany : (c.state.doc.value.any fun r => r.sid == oldSid) = true :=
              any_eq_true.mpr ⟨row, hrow, by simpa using hsid⟩
            have hone := hI.once presented
            have hpos := live_pos hrow hv
            refine @RedeemedWell.rotate site c.trace _ hI presented newSid ?_ rfl ⟨?_, ?_⟩ ?_
            · simp [redemption, rotation, hrev, hany]
            · have hzero := @live_rekey_eq_zero site presented oldSid newSid newHash idle e _ _
                (Nat.le_trans (Nat.le_add_right _ _) hone) hbase row hrow hsid
                (fun r hr => hcarries presented rfl r hr)
                fun hv => (hadded presented newHash hunguessed hv).1
              exact Nat.le_zero.mp (hzero ▸ hlive presented)
            · omega
            · intro token hne
              have hone' := hI.once token
              rcases hle token with h | h
              · exact Nat.le_trans (Nat.add_le_add_right h _) hone'
              · exact h
          · have hany : (c.state.doc.value.any fun r => r.sid == oldSid) = false := by
              rw [any_eq_false]
              intro r hr heq
              exact hheld ⟨r, hr, by simpa using heq⟩
            refine hI.keep ?_ hle fun token h => by cases h
            simp [redemption, rotation, hany]
      | create row =>
        simp only [Carries, Service.action, hτ] at hcarries
        refine hI.keep rfl (fun token => ?_) fun token h => by cases h
        have h1 := hlive token
        have h2 := hbelow token
        rcases @live_edit site e token (.create row) base (by simp) with h | ⟨row', hrow', hv, h⟩
        · exact .inl (h1.trans (h.trans h2))
        · cases hrow'
          obtain ⟨hzero, htimes⟩ := hadded token _ (hcarries hpass) hv
          dsimp only at hzero ⊢
          omega
      | _ =>
        refine hI.keep rfl (fun token => .inl ?_) fun token h => by cases h
        exact (hlive token).trans
          ((live_edit_le token base (by simp) (by simp)).trans (hbelow token))

/-- **A refresh token is redeemed once** in every run in which a refresh hands its token out
only after it re-keyed the row that still carried the refresh token, no name that was re-keyed
away is registered again, and new refresh tokens are fresh: no two requests are answered for
one refresh token, and the registry holds at most one row of a login, revoked or not. -/
theorem refresh_tokens_single_use (site : Site) {c : Requests}
    (h : (requestMachine site).Reaches (RedeemRun site) c) :
    (∀ x ∈ c.trace, ∀ y ∈ c.trace, ∀ token, answered x = some token → answered y = some token →
      x.thread = y.thread) ∧
    ∀ row ∈ c.state.doc.value, ∀ row' ∈ c.state.doc.value, row.isSentinel = false →
      row'.isSentinel = false → login c.trace row.sid = login c.trace row'.sid → row = row' := by
  have hredeemed := redeemedWell_of_reaches h
  have hregistry := registry_of_reaches (fun _ _ hG => hG.1) h
  constructor
  · intro x hx y hy token hxt hyt
    obtain ⟨sid, hsid⟩ := hredeemed.answers x hx token hxt
    obtain ⟨sid', hsid'⟩ := hredeemed.answers y hy token hyt
    have hone : timesRedeemed token c.trace ≤ 1 :=
      Nat.le_trans (Nat.le_add_left _ _) (hredeemed.once token)
    have heq := eq_of_countP_le_one hone hsid hsid' (by simp) (by simp)
    exact congrArg Prod.fst heq
  · intro row hrow row' hrow' hsen hsen' hlogin
    have hstored := hregistry.stored row hrow hsen
    have hstored' := hregistry.stored row' hrow' hsen'
    have hsid := hregistry.heads _ _ hstored.1 hstored'.1 hstored.2 hstored'.2 hlogin
    exact inj_on_of_nodup_map hregistry.distinct hrow hrow' hsid

/-! ### Two runs -/

def sampleSite : Site where
  strip := id
  lower := id
  sha256 := id

/-- The refresh token in a hash of `sampleSite`. -/
def tokenOf (hash : String) : String :=
  String.ofList (((hash.toList.dropWhile (· ≠ '$')).drop 1).drop
    ((hash.toList.takeWhile (· ≠ '$')).length + 1))

variable {hash : String}

theorem eq_tokenOf {token : String} (h : verifyRefresh sampleSite token hash = true) :
    token = tokenOf hash := by
  unfold verifyRefresh at h
  split at h
  · cases h
  · simp only [sampleSite, id_eq, beq_iff_eq] at h
    have hlist := congrArg String.toList h
    simp only [String.toList_append, String.toList_ofList] at hlist
    unfold tokenOf
    rw [← hlist]
    simp

/-- `Unguessed` and `RedeemRun`, evaluated for `sampleSite`. -/
def unguessed (c : Requests) (hash : String) : Bool :=
  (redeemed c.trace).all (fun p => p.2.1 != tokenOf hash) &&
    c.state.doc.value.all fun row => !verifyRefresh sampleSite (tokenOf hash) row.refreshHash

def redeemRun (c : Requests) (move : RequestMove) : Bool :=
  match Service.action c move with
  | some (τ, .other (.hand claims (some presented))) =>
    (redeemed c.trace).contains (τ, presented, claims.sid)
  | some (_, .putIf ⟨.rekeyAndRotate oldSid _ newHash _, some presented⟩ _ _ _) =>
    (c.state.doc.value.all fun row =>
      row.sid != oldSid || verifyRefresh sampleSite presented row.refreshHash) &&
    unguessed c newHash
  | some (_, .putIf ⟨.rekeyAndRotate .., none⟩ _ _ _) => false
  | some (_, .putIf ⟨.create row, _⟩ _ _ _) =>
    !(superseded c.trace).contains row.sid && unguessed c row.refreshHash
  | _ => true

theorem unguessed_iff (h : unguessed c hash = true) : Unguessed sampleSite c hash := by
  rw [unguessed, Bool.and_eq_true, all_eq_true, all_eq_true] at h
  intro token hv
  rw [eq_tokenOf hv]
  exact ⟨fun p hp => by simpa using h.1 p hp, fun row hrow => by simpa using h.2 row hrow⟩

theorem redeemRun_iff {move : RequestMove} (h : redeemRun c move = true) :
    RedeemRun sampleSite c move := by
  unfold redeemRun at h
  unfold RedeemRun Rotates Carries
  cases haction : Service.action c move with
  | none => exact ⟨trivial, trivial⟩
  | some p =>
    obtain ⟨τ, a⟩ := p
    rw [haction] at h
    cases a with
    | other x =>
      cases x with
      | hand claims presented =>
        cases presented with
        | none => exact ⟨trivial, trivial⟩
        | some presented => exact ⟨contains_iff_mem.mp h, trivial⟩
      | _ => exact ⟨trivial, trivial⟩
    | putIf w e current value =>
      obtain ⟨change, redeems⟩ := w
      cases change with
      | rekeyAndRotate oldSid newSid newHash idle =>
        cases redeems with
        | none => cases h
        | some presented =>
          dsimp only at h
          rw [Bool.and_eq_true, all_eq_true] at h
          refine ⟨trivial, fun _ => ⟨?_, unguessed_iff h.2⟩⟩
          rintro _ ⟨⟩ row hrow rfl
          simpa using h.1 row hrow
      | create row =>
        dsimp only at h
        rw [Bool.and_eq_true] at h
        exact ⟨fun _ => by simpa using h.1, fun _ => unguessed_iff h.2⟩
      | _ => exact ⟨trivial, trivial⟩
    | _ => exact ⟨trivial, trivial⟩

def accessWith (τ : Nat) (sid token : String) : RequestMove :=
  .step τ ⟨.answered, 1000000000, ⟨some ⟨sid, "alice", 0, 1000, 2000, false⟩, true, token, "x"⟩⟩

theorem start_empty : (requestMachine sampleSite).start ⟨⟨⟨[], 0⟩, ⟨[], []⟩⟩, [], []⟩ :=
  ⟨⟨rfl, rfl, rfl⟩, rfl, rfl⟩

set_option maxRecDepth 10000 in
/-- A sign-in and two refreshes, one after the other. -/
theorem refresh_tokens_single_use_of_chain :
    ∃ c, (requestMachine sampleSite).Reaches (RedeemRun sampleSite) c ∧
      c.trace.filterMap answered = ["r0", "r1"] ∧
      c.state.doc.value.map (fun row => login c.trace row.sid) = ["s0"] ∧
      ∀ row ∈ c.state.doc.value, ∀ row' ∈ c.state.doc.value, row.isSentinel = false →
        row'.isSentinel = false → login c.trace row.sid = login c.trace row'.sid → row = row' := by
  have hrun : (((requestMachine sampleSite).runChecked redeemRun ⟨⟨⟨[], 0⟩, ⟨[], []⟩⟩, [], []⟩
      ([.start (.signIn "alice" 0 "x$x:r0" {}), .start (.refresh "r0" {}),
        .start (.refresh "r1" {})] ++ List.replicate 6 (accessWith 0 "s0" "") ++
        List.replicate 8 (accessWith 1 "s1" "r1") ++ List.replicate 8 (accessWith 2 "s2" "r2"))).any
      fun c => c.trace.filterMap answered == ["r0", "r1"] &&
        c.state.doc.value.map (fun row => login c.trace row.sid) == ["s0"]) = true := by
    decide
  obtain ⟨c, hc, hend⟩ := Machine.reaches_of_runChecked (fun _ _ => redeemRun_iff) start_empty hrun
  rw [Bool.and_eq_true, beq_iff_eq, beq_iff_eq] at hend
  exact ⟨c, hc, hend.1, hend.2, (refresh_tokens_single_use sampleSite hc).2⟩

set_option maxRecDepth 10000 in
/-- Two overlapping refreshes are both answered for one refresh token. -/
theorem overlapping_refreshes_share_token :
    ¬ ∀ c, (requestMachine sampleSite).Reaches Machine.anyStep c →
      (∀ x ∈ c.trace, ∀ y ∈ c.trace, ∀ token, answered x = some token → answered y = some token →
        x.thread = y.thread) ∧
      ∀ row ∈ c.state.doc.value, ∀ row' ∈ c.state.doc.value, row.isSentinel = false →
        row'.isSentinel = false → row.revoked = false → row'.revoked = false →
        login c.trace row.sid = login c.trace row'.sid → row = row' := by
  intro hall
  have hrun : (((requestMachine sampleSite).runChecked (fun _ _ => true)
      ⟨⟨⟨[], 0⟩, ⟨[], []⟩⟩, [], []⟩
      ([.start (.signIn "alice" 0 "x$x:r0" {}), .start (.refresh "r0" {}),
        .start (.refresh "r0" {})] ++ List.replicate 6 (accessWith 0 "s0" "") ++
        List.replicate 2 (accessWith 1 "s1" "r1") ++ List.replicate 2 (accessWith 2 "s2" "r2") ++
        List.replicate 6 (accessWith 1 "s1" "r1") ++ List.replicate 6 (accessWith 2 "s2" "r2"))).any
      fun c => c.trace.any (fun x => x.thread == 1 && answered x == some "r0") &&
        c.trace.any (fun x => x.thread == 2 && answered x == some "r0")) = true := by
    decide
  obtain ⟨c, hc, hend⟩ := Machine.reaches_of_runChecked (fun _ _ _ => trivial) start_empty hrun
  simp only [Bool.and_eq_true, any_eq_true, beq_iff_eq] at hend
  obtain ⟨⟨x, hx, hx1, hxt⟩, y, hy, hy2, hyt⟩ := hend
  have hsame := (hall c hc).1 x hx y hy _ hxt hyt
  rw [hx1, hy2] at hsame
  cases hsame

end AgenticKibana.Sessions
