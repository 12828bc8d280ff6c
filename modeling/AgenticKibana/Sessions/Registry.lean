import AgenticKibana.Sessions.Rules

/-!
# The sessions of a login

A rotation re-keys the row of a session to the name of the token it mints, so the
rotations chain the names of one login together.  As long as a refresh hands its token out
only after its rotation took effect, and no name that was re-keyed away is registered
again, every stored row carries the last name of its login.
-/

namespace AgenticKibana.Sessions

open AgenticKibana.Library AgenticKibana.Stores List

def rotation (x : RequestStep) : Option (String × String) :=
  match x with
  | ⟨_, .putIf ⟨.rekeyAndRotate oldSid newSid _ _, _⟩ _ _ _, _, s, t⟩ =>
    if t.doc.rev ≠ s.doc.rev ∧ (s.doc.value.any fun r => r.sid == oldSid) = true then
      some (oldSid, newSid)
    else none
  | _ => none

def rotations (trace : List RequestStep) : List (String × String) := trace.filterMap rotation

/-- The request that redeemed a refresh token by a rotation, the token, and the name of the access
token it minted. -/
def redemption (x : RequestStep) : Option (Nat × String × String) :=
  match x.act with
  | .putIf ⟨.rekeyAndRotate .., some presented⟩ _ _ _ =>
    (rotation x).map fun p => (x.thread, presented, p.2)
  | _ => none

def redeemed (trace : List RequestStep) : List (Nat × String × String) :=
  trace.filterMap redemption

/-- The names that were re-keyed away. -/
def superseded (trace : List RequestStep) : List String := (rotations trace).map Prod.fst

/-- The first name of a session, back along the rotations. -/
def follow (ps : List (String × String)) (sid : String) : String :=
  ps.foldl (fun login p sid => if sid = p.2 then login p.1 else login sid) id sid

def login (trace : List RequestStep) (sid : String) : String := follow (rotations trace) sid

def Registered (trace : List RequestStep) (s : Shared) (sid : String) : Prop :=
  (∃ p ∈ s.rest.issued, p.origin = none ∧ p.claims.sid = sid) ∨ sid ∈ (rotations trace).map Prod.snd

/-- A refresh hands its token out after its rotation took effect, and no name that was re-keyed
away is registered again. -/
def Rotates (c : Requests) (move : RequestMove) : Prop :=
  match Service.action c move with
  | some (τ, .other (.hand claims (some presented))) =>
    (τ, presented, claims.sid) ∈ redeemed c.trace
  | some (_, .putIf ⟨.create row, _⟩ _ current _) =>
    c.state.doc.rev = revOf current → row.sid ∉ superseded c.trace
  | _ => True

/-- What holds of the registry in every run that keeps `Rotates`. -/
structure Registry (trace : List RequestStep) (s : Shared) : Prop where
  nodup : (s.rest.issued.map fun p => p.claims.sid).Nodup
  named : ∀ p ∈ s.rest.issued, p.claims.sid ≠ "" ∧ isSentinel p.claims.sid = false
  mints : ∀ x ∈ trace, ∀ origin claims, minted x = some (origin, claims) →
    ⟨claims, origin⟩ ∈ s.rest.issued
  verifies : ∀ x ∈ trace, ∀ claims, verified x = some claims →
    claims.sid ∈ s.rest.handed ∧ ∃ p ∈ s.rest.issued, p.claims = claims
  links : ∀ oldSid newSid, (oldSid, newSid) ∈ rotations trace → Registered trace s oldSid ∧
    ∃ p ∈ s.rest.issued, p.claims.sid = newSid ∧ p.origin = some oldSid
  handed : ∀ sid ∈ s.rest.handed, Registered trace s sid
  stored : ∀ row ∈ s.doc.value, row.isSentinel = false →
    Registered trace s row.sid ∧ row.sid ∉ superseded trace
  distinct : (s.doc.value.map Row.sid).Nodup
  heads : ∀ sid sid', Registered trace s sid → Registered trace s sid' → sid ∉ superseded trace →
    sid' ∉ superseded trace → login trace sid = login trace sid' → sid = sid'
  rooted : ∀ sid, Registered trace s sid → ∃ p ∈ s.rest.issued, p.claims.sid = login trace sid

section Trace

variable {trace : List RequestStep} {x : RequestStep}

theorem rotations_snoc (trace : List RequestStep) (x : RequestStep) :
    rotations (trace ++ [x]) = rotations trace ++ (rotation x).toList := by
  unfold rotations
  rw [filterMap_append]
  cases h : rotation x with
  | none | some p => simp [h]

theorem rotations_of_none (h : rotation x = none) : rotations (trace ++ [x]) = rotations trace := by
  rw [rotations_snoc, h]
  exact append_nil _

theorem superseded_of_none (h : rotation x = none) :
    superseded (trace ++ [x]) = superseded trace := by
  unfold superseded
  rw [rotations_of_none h]

theorem login_of_none (h : rotation x = none) : login (trace ++ [x]) = login trace := by
  unfold login
  rw [rotations_of_none h]

variable {sid : String}

theorem registered_of_none {s : Shared} (h : rotation x = none) :
    Registered (trace ++ [x]) s sid ↔ Registered trace s sid := by
  unfold Registered
  rw [rotations_of_none h]

theorem follow_snoc (ps : List (String × String)) (p : String × String) (sid : String) :
    follow (ps ++ [p]) sid = if sid = p.2 then follow ps p.1 else follow ps sid := by
  unfold follow
  rw [foldl_append]
  rfl

theorem follow_of_notMem {ps : List (String × String)} (h : ∀ p ∈ ps, sid ≠ p.2) :
    follow ps sid = sid := by
  induction ps using List.reverseRecOn with
  | nil => rfl
  | append_singleton ps p ih =>
    rw [follow_snoc, if_neg (h p (mem_append_right _ mem_cons_self))]
    exact ih fun q hq => h q (mem_append_left _ hq)

theorem mem_rotations_of_redeemed {p : Nat × String × String} (h : p ∈ redeemed trace) :
    p.2.2 ∈ (rotations trace).map Prod.snd := by
  obtain ⟨x, hx, hp⟩ := mem_filterMap.mp h
  unfold redemption at hp
  split at hp
  · obtain ⟨q, hq, rfl⟩ := Option.map_eq_some_iff.mp hp
    exact mem_map.mpr ⟨q, mem_filterMap.mpr ⟨x, hx, hq⟩, rfl⟩
  · cases hp

theorem of_rotation {oldSid newSid : String} (h : rotation x = some (oldSid, newSid)) :
    ∃ newHash idle redeems e current value,
      x.act = .putIf ⟨.rekeyAndRotate oldSid newSid newHash idle, redeems⟩ e current value ∧
      x.after.doc.rev ≠ x.before.doc.rev ∧ ∃ r ∈ x.before.doc.value, r.sid = oldSid := by
  unfold rotation at h
  split at h
  · split at h
    · rename_i hcond
      cases h
      obtain ⟨r, hr, heq⟩ := any_eq_true.mp hcond.2
      exact ⟨_, _, _, _, _, _, rfl, hcond.1, r, hr, by simpa using heq⟩
    · cases h
  · cases h

variable {oldSid newSid : String}

theorem superseded_rotated (h : rotation x = some (oldSid, newSid)) (sid : String) :
    sid ∈ superseded (trace ++ [x]) ↔ sid ∈ superseded trace ∨ sid = oldSid := by
  simp [superseded, rotations_snoc, h]

theorem registered_rotated {s : Shared} (h : rotation x = some (oldSid, newSid)) (sid : String) :
    Registered (trace ++ [x]) s sid ↔ Registered trace s sid ∨ sid = newSid := by
  unfold Registered
  rw [rotations_snoc, h, map_append, mem_append, or_assoc]
  simp

theorem login_rotated (h : rotation x = some (oldSid, newSid)) (sid : String) :
    login (trace ++ [x]) sid = if sid = newSid then login trace oldSid else login trace sid := by
  unfold login
  rw [rotations_snoc, h]
  exact follow_snoc _ _ sid

theorem isSentinel_tvKey (site : Site) (username : String) :
    isSentinel (tvKey site username) = true := by
  unfold isSentinel tvKey
  rw [String.toList_append]
  exact List.isPrefixOf_iff_prefix.mpr (prefix_append _ _)

end Trace

/-! ### Steps -/

section Steps

variable {site : Site} {trace : List RequestStep} {x : RequestStep}

/-- The rows after a write that took effect, and what they were changed from: the stored ones, or
none where the read had failed. -/
theorem rows_of_written (h : Written [] (apply site) x) {w : Write} {e : Nat}
    {current : Option (Document (List Row))} {value : List Row}
    (hact : x.act = .putIf w e current value) (hrev : x.after.doc.rev ≠ x.before.doc.rev) :
    ∃ base : List Row, base.Sublist x.before.doc.value ∧
      (base = loaded x.before.doc.value ∨ current = none) ∧
      x.after.doc.value = bound e (w.change.edit site e base) := by
  rcases h with hdoc | ⟨w', e', current', value', hact', happly, -⟩ |
    ⟨w', e', value', hact', happly, -, -⟩
  · exact absurd (congrArg Document.rev hdoc) hrev
  · rw [hact] at hact'
    cases hact'
    exact ⟨_, filter_sublist, .inl rfl, (Except.ok.inj happly).symm⟩
  · rw [hact] at hact'
    cases hact'
    exact ⟨[], nil_sublist _, .inr rfl, (Except.ok.inj happly).symm⟩

variable (h : Registry trace x.before)

include h

/-- An access that mints and rotates nothing, hands out what is registered, and leaves the names of
the rows. -/
theorem Registry.keep (hissued : x.after.rest.issued = x.before.rest.issued)
    (hhanded : x.before.rest.handed ⊆ x.after.rest.handed)
    (hreg : ∀ sid ∈ x.after.rest.handed, Registered trace x.before sid)
    (hrotation : rotation x = none) (hminted : minted x = none)
    (hverified : ∀ claims, verified x = some claims →
      claims.sid ∈ x.before.rest.handed ∧ ∃ p ∈ x.before.rest.issued, p.claims = claims)
    (hrows : ∀ row ∈ x.after.doc.value, row.isSentinel = false →
      Registered trace x.before row.sid ∧ row.sid ∉ superseded trace)
    (hdistinct : (x.after.doc.value.map Row.sid).Nodup) : Registry (trace ++ [x]) x.after := by
  have hregistered : ∀ sid, Registered (trace ++ [x]) x.after sid ↔
      Registered trace x.before sid := by
    intro sid
    rw [registered_of_none hrotation]
    unfold Registered
    rw [hissued]
  refine {
    nodup := hissued ▸ h.nodup
    named := hissued ▸ h.named
    mints := ?_
    verifies := ?_
    links := ?_
    handed := ?_
    stored := ?_
    distinct := hdistinct
    heads := ?_
    rooted := ?_ }
  · intro y hy origin claims hm
    rw [hissued]
    rcases mem_append.mp hy with hy | hy
    · exact h.mints y hy origin claims hm
    · rw [mem_singleton.mp hy, hminted] at hm
      cases hm
  · intro y hy claims hv
    rw [hissued]
    rcases mem_append.mp hy with hy | hy
    · exact (h.verifies y hy claims hv).imp_left (hhanded ·)
    · rw [mem_singleton.mp hy] at hv
      exact (hverified claims hv).imp_left (hhanded ·)
  · intro oldSid newSid hmem
    rw [rotations_of_none hrotation] at hmem
    rw [hregistered, hissued]
    exact h.links oldSid newSid hmem
  · intro sid hmem
    rw [hregistered]
    exact hreg sid hmem
  · intro row hrow hsentinel
    rw [hregistered, superseded_of_none hrotation]
    exact hrows row hrow hsentinel
  · intro sid sid' hsid hsid' hnew hnew' hlogin
    rw [hregistered] at hsid hsid'
    rw [superseded_of_none hrotation] at hnew hnew'
    rw [login_of_none hrotation] at hlogin
    exact h.heads sid sid' hsid hsid' hnew hnew' hlogin
  · intro sid hsid
    rw [hregistered] at hsid
    rw [login_of_none hrotation, hissued]
    exact h.rooted sid hsid

theorem Registry.same (hsame : x.after = x.before)
    (hrotation : rotation x = none) (hminted : minted x = none)
    (hverified : ∀ claims, verified x = some claims →
      claims.sid ∈ x.before.rest.handed ∧ ∃ p ∈ x.before.rest.issued, p.claims = claims) :
    Registry (trace ++ [x]) x.after := by
  refine h.keep (by rw [hsame]) (by rw [hsame]; exact Subset.refl _) ?_ hrotation hminted hverified
    ?_ ?_
  · rw [hsame]
    exact h.handed
  · rw [hsame]
    exact h.stored
  · rw [hsame]
    exact h.distinct

theorem Registry.mint {p : Issued}
    (hdoc : x.after.doc = x.before.doc) (hhanded : x.after.rest.handed = x.before.rest.handed)
    (hissued : x.after.rest.issued = x.before.rest.issued ++ [p]) (hrotation : rotation x = none)
    (hminted : minted x = some (p.origin, p.claims)) (hverified : verified x = none)
    (hsid : p.claims.sid ≠ "") (hsentinel : isSentinel p.claims.sid = false)
    (hfresh : ∀ q ∈ x.before.rest.issued, q.claims.sid ≠ p.claims.sid) :
    Registry (trace ++ [x]) x.after := by
  have hmem : ∀ q, q ∈ x.before.rest.issued → q ∈ x.after.rest.issued := by
    intro q hq
    rw [hissued]
    exact mem_append_left _ hq
  have hold : ∀ sid, Registered trace x.before sid → Registered (trace ++ [x]) x.after sid := by
    rintro sid (⟨q, hq, horigin, hname⟩ | hmem')
    · exact .inl ⟨q, hmem q hq, horigin, hname⟩
    · exact .inr (by rw [rotations_of_none hrotation]; exact hmem')
  have hnew : ∀ sid, Registered (trace ++ [x]) x.after sid →
      Registered trace x.before sid ∨ sid = p.claims.sid := by
    rintro sid (⟨q, hq, horigin, hname⟩ | hmem')
    · rw [hissued] at hq
      rcases mem_append.mp hq with hq | hq
      · exact .inl (.inl ⟨q, hq, horigin, hname⟩)
      · rw [mem_singleton.mp hq] at hname
        exact .inr hname.symm
    · rw [rotations_of_none hrotation] at hmem'
      exact .inl (.inr hmem')
  -- the fresh name is in no rotation, so it is a login of its own
  have hlogin : login trace p.claims.sid = p.claims.sid := by
    have hnone : ∀ q ∈ rotations trace, p.claims.sid ≠ q.2 := by
      rintro ⟨oldSid, newSid⟩ hq heq
      obtain ⟨-, q, hq', hname, -⟩ := h.links oldSid newSid hq
      exact hfresh q hq' (hname.trans heq.symm)
    exact follow_of_notMem hnone
  have hother : ∀ sid, Registered trace x.before sid → login trace sid ≠ p.claims.sid := by
    intro sid hreg heq
    obtain ⟨q, hq, hname⟩ := h.rooted sid hreg
    exact hfresh q hq (hname.trans heq)
  refine {
    nodup := ?_
    named := ?_
    mints := ?_
    verifies := ?_
    links := ?_
    handed := ?_
    stored := ?_
    distinct := hdoc ▸ h.distinct
    heads := ?_
    rooted := ?_ }
  · rw [hissued, map_append, nodup_append]
    refine ⟨h.nodup, nodup_singleton _, ?_⟩
    intro a ha b hb heq
    obtain ⟨q, hq, rfl⟩ := mem_map.mp ha
    rw [map_singleton, mem_singleton] at hb
    exact hfresh q hq (heq.trans hb)
  · intro q hq
    rw [hissued] at hq
    rcases mem_append.mp hq with hq | hq
    · exact h.named q hq
    · rw [mem_singleton.mp hq]
      exact ⟨hsid, hsentinel⟩
  · intro y hy origin claims hm
    rcases mem_append.mp hy with hy | hy
    · exact hmem _ (h.mints y hy origin claims hm)
    · rw [mem_singleton.mp hy, hminted] at hm
      cases hm
      rw [hissued]
      exact mem_append_right _ mem_cons_self
  · intro y hy claims hv
    rcases mem_append.mp hy with hy | hy
    · obtain ⟨hin, q, hq, hname⟩ := h.verifies y hy claims hv
      exact ⟨hhanded ▸ hin, q, hmem q hq, hname⟩
    · rw [mem_singleton.mp hy, hverified] at hv
      cases hv
  · intro oldSid newSid hlink
    rw [rotations_of_none hrotation] at hlink
    obtain ⟨hreg, q, hq, hname⟩ := h.links oldSid newSid hlink
    exact ⟨hold _ hreg, q, hmem q hq, hname⟩
  · intro sid hin
    rw [hhanded] at hin
    exact hold _ (h.handed sid hin)
  · intro row hrow hsen
    rw [hdoc] at hrow
    rw [superseded_of_none hrotation]
    exact ⟨hold _ (h.stored row hrow hsen).1, (h.stored row hrow hsen).2⟩
  · intro sid sid' hreg hreg' hsup hsup' heq
    rw [superseded_of_none hrotation] at hsup hsup'
    rw [login_of_none hrotation] at heq
    rcases hnew sid hreg with hreg | rfl
    · rcases hnew sid' hreg' with hreg' | rfl
      · exact h.heads sid sid' hreg hreg' hsup hsup' heq
      · exact absurd (heq.trans hlogin) (hother sid hreg)
    · rcases hnew sid' hreg' with hreg' | rfl
      · exact absurd (heq.symm.trans hlogin) (hother sid' hreg')
      · rfl
  · intro sid hreg
    rw [login_of_none hrotation]
    rcases hnew sid hreg with hreg | rfl
    · obtain ⟨q, hq, hname⟩ := h.rooted sid hreg
      exact ⟨q, hmem q hq, hname⟩
    · rw [hlogin, hissued]
      exact ⟨p, mem_append_right _ mem_cons_self, rfl⟩

variable {sid : String}

theorem Registry.hand (hdoc : x.after.doc = x.before.doc)
    (hissued : x.after.rest.issued = x.before.rest.issued)
    (hhanded : x.after.rest.handed = x.before.rest.handed ++ [sid])
    (hrotation : rotation x = none) (hminted : minted x = none) (hverified : verified x = none)
    (hreg : Registered trace x.before sid) : Registry (trace ++ [x]) x.after := by
  refine h.keep hissued (by rw [hhanded]; exact subset_append_left _ _) ?_ hrotation hminted
    (by rw [hverified]; simp) ?_ ?_
  · intro sid' hin
    rw [hhanded] at hin
    rcases mem_append.mp hin with hin | hin
    · exact h.handed sid' hin
    · rw [mem_singleton.mp hin]
      exact hreg
  · rw [hdoc]
    exact h.stored
  · rw [hdoc]
    exact h.distinct

theorem Registry.notMem_sids (hsentinel : isSentinel sid = false)
    (hreg : ¬ Registered trace x.before sid) : sid ∉ x.before.doc.value.map Row.sid := by
  intro hmem
  obtain ⟨row, hrow, rfl⟩ := mem_map.mp hmem
  exact hreg (h.stored row hrow hsentinel).1

omit h in
/-- A name that was minted for a session is not used before that is re-keyed: it is no sign-in's,
and no earlier rotation led to it. -/
theorem Registry.unused {s : Shared} (h : Registry trace s) {oldSid newSid : String}
    (hold : oldSid ∉ superseded trace)
    (hissued : ∃ p ∈ s.rest.issued, p.claims.sid = newSid ∧ p.origin = some oldSid) :
    ¬ Registered trace s newSid := by
  obtain ⟨p, hp, hname, horigin⟩ := hissued
  have hunique : ∀ q ∈ s.rest.issued, q.claims.sid = newSid → q = p := by
    intro q hq heq
    exact inj_on_of_nodup_map h.nodup hq hp (heq.trans hname.symm)
  rintro (⟨q, hq, hnone, hq'⟩ | hmem)
  · rw [hunique q hq hq', horigin] at hnone
    cases hnone
  · obtain ⟨⟨oldSid', newSid'⟩, hlink, rfl⟩ := mem_map.mp hmem
    obtain ⟨-, q, hq, hq', horigin'⟩ := h.links oldSid' newSid' hlink
    rw [hunique q hq hq', horigin, Option.some.injEq] at horigin'
    rw [horigin'] at hold
    exact hold (mem_map.mpr ⟨_, hlink, rfl⟩)

theorem Registry.rotate {oldSid newSid newHash : String} {idle e : Nat}
    {base : List Row} (hrest : x.after.rest = x.before.rest)
    (hrotation : rotation x = some (oldSid, newSid)) (hminted : minted x = none)
    (hverified : verified x = none) (hsentinel : isSentinel oldSid = false)
    (hissued : ∃ p ∈ x.before.rest.issued, p.claims.sid = newSid ∧ p.origin = some oldSid)
    (hbase : base.Sublist x.before.doc.value)
    (hrows : ∀ row ∈ x.after.doc.value,
      (Change.rekeyAndRotate oldSid newSid newHash idle).Row site e base row)
    (hdistinct : newSid ∉ base.map Row.sid → (x.after.doc.value.map Row.sid).Nodup) :
    Registry (trace ++ [x]) x.after := by
  obtain ⟨p, hp, hname, horigin⟩ := hissued
  obtain ⟨-, -, -, -, -, -, -, -, r0, hr0, hold⟩ := of_rotation hrotation
  have hstored := h.stored r0 hr0 (by rw [Row.isSentinel, hold]; exact hsentinel)
  rw [hold] at hstored
  have hunused := h.unused hstored.2 ⟨p, hp, hname, horigin⟩
  have hne : oldSid ≠ newSid := by
    rintro rfl
    exact hunused hstored.1
  have hnew : newSid ∉ base.map Row.sid := by
    intro hmem
    refine h.notMem_sids ?_ hunused ((hbase.map Row.sid).subset hmem)
    rw [← hname]
    exact (h.named p hp).2
  have hsup : ∀ sid, sid ∈ superseded (trace ++ [x]) ↔ sid ∈ superseded trace ∨ sid = oldSid :=
    superseded_rotated hrotation
  have hreg : ∀ sid, Registered (trace ++ [x]) x.after sid ↔
      Registered trace x.before sid ∨ sid = newSid := by
    intro sid
    rw [registered_rotated hrotation, Registered, hrest, ← Registered]
  have hlogin : ∀ sid, sid ≠ newSid → login (trace ++ [x]) sid = login trace sid :=
    fun sid hsid => (login_rotated hrotation sid).trans (if_neg hsid)
  have hloginNew : login (trace ++ [x]) newSid = login trace oldSid :=
    (login_rotated hrotation newSid).trans (if_pos rfl)
  have hnotNew : ∀ sid, Registered trace x.before sid → sid ≠ newSid := by
    rintro sid hsid rfl
    exact hunused hsid
  refine {
    nodup := hrest ▸ h.nodup
    named := hrest ▸ h.named
    mints := ?_
    verifies := ?_
    links := ?_
    handed := ?_
    stored := ?_
    distinct := hdistinct hnew
    heads := ?_
    rooted := ?_ }
  · intro y hy origin claims hm
    rw [hrest]
    rcases mem_append.mp hy with hy | hy
    · exact h.mints y hy origin claims hm
    · rw [mem_singleton.mp hy, hminted] at hm
      cases hm
  · intro y hy claims hv
    rw [hrest]
    rcases mem_append.mp hy with hy | hy
    · exact h.verifies y hy claims hv
    · rw [mem_singleton.mp hy, hverified] at hv
      cases hv
  · intro oldSid' newSid' hlink
    rw [rotations_snoc, hrotation] at hlink
    rw [hrest]
    rcases mem_append.mp hlink with hlink | hlink
    · exact ⟨(hreg _).mpr (.inl (h.links _ _ hlink).1), (h.links _ _ hlink).2⟩
    · cases mem_singleton.mp hlink
      exact ⟨(hreg _).mpr (.inl hstored.1), p, hp, hname, horigin⟩
  · intro sid hin
    rw [hrest] at hin
    exact (hreg sid).mpr (.inl (h.handed sid hin))
  · intro row hrow hsen
    cases hrows row hrow with
    | created change => cases change
    | sentinel username hsid _ _ =>
      rw [Row.isSentinel, hsid, isSentinel_tvKey] at hsen
      cases hsen
    | rekeyed oldSid' newSid' newHash' idle' r change _ _ hrekey =>
      cases change
      have hsid : row.sid = newSid := by rw [hrekey]; rfl
      rw [hsid, hreg, hsup]
      refine ⟨.inr rfl, ?_⟩
      rintro (hmem | heq)
      · obtain ⟨⟨a, b⟩, hlink, hfst⟩ := mem_map.mp hmem
        dsimp only at hfst
        rw [← hfst] at hunused
        exact hunused (h.links a b hlink).1
      · exact hne heq.symm
    | kept r hmem hkept _ hrekey =>
      have hr := h.stored r (hbase.subset hmem) (by rw [Row.isSentinel, ← hkept.sid]; exact hsen)
      rw [hkept.sid, hreg, hsup]
      refine ⟨.inl hr.1, ?_⟩
      rintro (hin | heq)
      · exact hr.2 hin
      · exact hrekey _ _ _ _ rfl heq
  · intro sid sid' hsid hsid' hnsup hnsup' heq
    rw [hsup, not_or] at hnsup hnsup'
    rcases (hreg sid).mp hsid with hsid | rfl
    · rw [hlogin sid (hnotNew sid hsid)] at heq
      rcases (hreg sid').mp hsid' with hsid' | rfl
      · rw [hlogin sid' (hnotNew sid' hsid')] at heq
        exact h.heads sid sid' hsid hsid' hnsup.1 hnsup'.1 heq
      · rw [hloginNew] at heq
        exact absurd (h.heads sid oldSid hsid hstored.1 hnsup.1 hstored.2 heq) hnsup.2
    · rw [hloginNew] at heq
      rcases (hreg sid').mp hsid' with hsid' | rfl
      · rw [hlogin sid' (hnotNew sid' hsid')] at heq
        exact absurd (h.heads oldSid sid' hstored.1 hsid' hstored.2 hnsup'.1 heq).symm hnsup'.2
      · rfl
  · intro sid hsid
    rw [hrest]
    rcases (hreg sid).mp hsid with hsid | rfl
    · rw [hlogin sid (hnotNew sid hsid)]
      exact h.rooted sid hsid
    · rw [hloginNew]
      exact h.rooted oldSid hstored.1

end Steps

theorem Registry.serveVerify {trace : List RequestStep} {s t : Shared} (h : Registry trace s)
    {τ : Nat} {claims : Claims} {draw : Draw} {r : Bool}
    (hserve : serveEffect τ (.verify claims) draw s = some (t, r)) :
    Registry (trace ++ [⟨τ, .other (.verify claims), r, s, t⟩]) t := by
  cases hserve
  refine h.same (x := ⟨τ, .other (.verify claims), _, s, s⟩) rfl rfl rfl ?_
  intro claims' hverified
  cases hcheck : (draw.verified && s.rest.handed.contains claims.sid &&
      s.rest.issued.any fun p => p.claims == claims) with
  | false =>
    rw [hcheck] at hverified
    cases hverified
  | true =>
    rw [hcheck] at hverified
    cases hverified
    simp only [Bool.and_eq_true, contains_iff_mem, any_eq_true, beq_iff_eq] at hcheck
    exact ⟨hcheck.1.2, hcheck.2⟩

theorem Registry.serveMint {trace : List RequestStep} {s t : Shared} (h : Registry trace s)
    {τ rememberSeconds : Nat} {username : String} {origin : Option String} {draw : Draw}
    {r : Option Claims}
    (hserve : serveEffect τ (.mint username rememberSeconds origin) draw s = some (t, r)) :
    Registry (trace ++ [⟨τ, .other (.mint username rememberSeconds origin), r, s, t⟩]) t := by
  simp only [serveEffect] at hserve
  split at hserve
  · cases hserve
    refine h.same (x := ⟨τ, .other (.mint ..), none, s, s⟩) rfl rfl rfl ?_
    intro claims hverified
    cases hverified
  · rename_i claims _
    split at hserve
    · cases hserve
    · rename_i hfresh
      rw [not_or, not_or] at hfresh
      cases hserve
      refine h.mint (x := ⟨τ, .other (.mint ..), some claims, s, _⟩) (p := ⟨claims, origin⟩)
        rfl rfl rfl rfl rfl rfl hfresh.1 (by simpa using hfresh.2.1) ?_
      intro q hq heq
      exact hfresh.2.2 (any_eq_true.mpr ⟨q, hq, by simpa using heq⟩)

section Runs

variable {site : Site} {G : Requests → RequestMove → Prop} {c : Requests}

theorem leavesDocument : LeavesDocument serveEffect := by
  intro τ x draw s t r h
  cases x with
  | mint username rememberSeconds origin =>
    simp only [serveEffect] at h
    split at h
    · cases h
      rfl
    · split at h
      · cases h
      · cases h
        rfl
  | draw | verify claims | hand claims presented | allow claims => cases h; rfl

theorem written_of_requests (h : (requestMachine site).Reaches G c) :
    ∀ x ∈ c.trace, Written [] (apply site) x :=
  (written_of_revisions (P := fun _ => Knows site) known_code leavesDocument
    (fun _ _ _ hk => ⟨hk.computed, hk.noPut⟩) h).2

theorem written_of_putIf {τ : Nat} {n : Request} {answer : Answer Nat Draw} {w : Write} {e : Nat}
    {current : Option (Document (List Row))} {value : List Row} {t : Shared}
    {k : Act.Reply Effect.Reply (.putIf w e current value : RequestAct) → Prog Response}
    {r : Act.Reply Effect.Reply (.putIf w e current value : RequestAct)}
    (hc : (requestMachine site).Reaches G c) (hG : G c (.step τ answer))
    (hτ : c.clients[τ]? = some (n, .act (.putIf w e current value) k))
    (hserve : (service serveEffect).serve τ (.putIf w e current value) answer c.state =
      some (t, r)) :
    Written [] (apply site) (⟨τ, .putIf w e current value, r, c.state, t⟩ : RequestStep) := by
  have hstep : (requestMachine site).step c (.step τ answer) = some ⟨t, c.clients.set τ (n, k r),
      c.trace ++ [⟨τ, .putIf w e current value, r, c.state, t⟩]⟩ := by
    simp only [requestMachine, Service.machine, Service.step, hτ, hserve]
  exact written_of_requests (hc.step hG hstep) _ (mem_append_right _ mem_cons_self)

/-- A write that took effect keeps the registry, if it rotates only what was minted for it and
registers only names that are in use; the rows may be any of the changed ones. -/
theorem Registry.write {trace : List RequestStep} {x : RequestStep}
    (h : Registry trace x.before) {base : List Row} (hbase : base.Sublist x.before.doc.value)
    {change : Change} {redeems : Option String} {e : Nat} {current : Option (Document (List Row))}
    {value : List Row} (hact : x.act = .putIf ⟨change, redeems⟩ e current value)
    (hrows : x.after.doc.value.Subperm (change.edit site e base))
    (hrest : x.after.rest = x.before.rest) (hrev : x.after.doc.rev ≠ x.before.doc.rev)
    (hcreate : ∀ row, change = .create row → Registered trace x.before row.sid ∧
      row.sid ∉ superseded trace)
    (hrotate : ∀ oldSid newSid newHash idle, change = .rekeyAndRotate oldSid newSid newHash idle →
      isSentinel oldSid = false ∧
        ∃ p ∈ x.before.rest.issued, p.claims.sid = newSid ∧ p.origin = some oldSid) :
    Registry (trace ++ [x]) x.after := by
  have hnodup : (base.map Row.sid).Nodup := (hbase.map Row.sid).nodup h.distinct
  have hminted : minted x = none := by
    obtain ⟨τ, a, r, s, t⟩ := x
    dsimp only at hact
    subst hact
    rfl
  have hverified : verified x = none := by
    obtain ⟨τ, a, r, s, t⟩ := x
    dsimp only at hact
    subst hact
    rfl
  have hmem : ∀ row ∈ x.after.doc.value, change.Row site e base row := by
    intro row hrow
    exact mem_edit hnodup (hrows.subset hrow)
  -- a rotation of a stored row is recorded
  have hrecorded : ∀ oldSid newSid newHash idle,
    change = .rekeyAndRotate oldSid newSid newHash idle →
      (∃ r ∈ base, r.sid = oldSid) → rotation x = some (oldSid, newSid) := by
    rintro oldSid newSid newHash idle rfl ⟨r, hr, rfl⟩
    obtain ⟨τ, a, reply, s, t⟩ := x
    dsimp only at hact hrev hbase
    subst hact
    have hany : (s.doc.value.any fun r' => r'.sid == r.sid) = true :=
      any_eq_true.mpr ⟨r, hbase.subset hr, by simp⟩
    simp only [rotation, hany, ne_eq, hrev, not_false_eq_true, and_self, if_true]
  cases hrotation : rotation x with
  | none =>
    refine h.keep (by rw [hrest]) (by rw [hrest]; exact Subset.refl _)
      (by rw [hrest]; exact h.handed) hrotation hminted (by rw [hverified]; simp) ?_ ?_
    · intro row hrow hsen
      cases hmem row hrow with
      | created hchange => exact hcreate row hchange
      | sentinel username hsid _ _ =>
        rw [Row.isSentinel, hsid, isSentinel_tvKey] at hsen
        cases hsen
      | rekeyed oldSid newSid newHash idle r hchange hr hsid _ =>
        rw [hrecorded _ _ _ _ hchange ⟨r, hr, hsid⟩] at hrotation
        cases hrotation
      | kept r hr hkept _ _ =>
        rw [hkept.sid]
        refine h.stored r (hbase.subset hr) ?_
        rw [Row.isSentinel, ← hkept.sid]
        exact hsen
    · refine nodup_of_subperm hrows (nodup_edit hnodup ?_)
      intro oldSid newSid newHash idle hchange hold
      rw [hrecorded _ _ _ _ hchange hold] at hrotation
      cases hrotation
  | some p =>
    obtain ⟨oldSid, newSid⟩ := p
    obtain ⟨newHash, idle, redeems', e', current', value', hact', -, -⟩ := of_rotation hrotation
    rw [hact] at hact'
    cases hact'
    obtain ⟨hsentinel, hissued⟩ := hrotate _ _ _ _ rfl
    refine h.rotate hrest hrotation hminted hverified hsentinel hissued hbase hmem fun hnew => ?_
    refine nodup_of_subperm hrows (nodup_edit hnodup ?_)
    rintro _ _ _ _ ⟨⟩ _
    exact hnew

/-- **The registry of every run**: each stored row carries the last name of its login. -/
theorem registry_of_reaches (hG : ∀ c e, G c e → Rotates c e)
    (h : (requestMachine site).Reaches G c) : Registry c.trace c.state := by
  refine Service.trace_induction (P := fun _ => Knows site) known_code ?_ ?_ h
  · rintro s ⟨hrows, hissued, hhanded⟩
    have hnone : ∀ sid, ¬ Registered [] s sid := by
      rintro sid (⟨p, hp, -⟩ | hmem)
      · rw [hissued] at hp
        cases hp
      · cases hmem
    exact {
      nodup := by simp [hissued]
      named := by simp [hissued]
      mints := by simp
      verifies := by simp
      links := by simp [rotations]
      handed := by simp [hhanded]
      stored := by simp [hrows]
      distinct := by simp [hrows]
      heads := fun sid _ hsid => absurd hsid (hnone sid)
      rooted := fun sid hsid => absurd hsid (hnone sid) }
  · intro c τ answer n a k t r hc hI hτ hknows hGa hserve
    have hrotates := hG _ _ hGa
    have hsame : t = c.state → rotation ⟨τ, a, r, c.state, t⟩ = none →
        minted ⟨τ, a, r, c.state, t⟩ = none → verified ⟨τ, a, r, c.state, t⟩ = none →
        Registry (c.trace ++ [⟨τ, a, r, c.state, t⟩]) t := by
      intro ht hrotation hminted hverified
      exact hI.same ht hrotation hminted (by rw [hverified]; simp)
    cases a with
    | get => exact hsame (serve_get hserve).1 rfl rfl rfl
    | moment => exact hsame (serve_moment hserve) rfl rfl rfl
    | put value => exact absurd rfl (hknows.noPut value)
    | other x =>
      cases x with
      | draw | allow claims => cases hserve; exact hsame rfl rfl rfl rfl
      | verify claims =>
        exact hI.serveVerify hserve
      | hand claims presented =>
        cases hserve
        refine hI.hand rfl rfl rfl rfl rfl rfl ?_
        obtain ⟨y, hy, origin, hminted, horigin⟩ := hknows.hands claims presented rfl
        cases presented with
        | none =>
          have hissued := hI.mints y (mem_own.mp hy).1 origin claims hminted
          exact .inl ⟨_, hissued, horigin rfl, rfl⟩
        | some token =>
          simp only [Rotates, Service.action, hτ] at hrotates
          exact .inr (mem_rotations_of_redeemed hrotates)
      | mint username rememberSeconds origin =>
        exact hI.serveMint hserve
    | putIf w e current value =>
      obtain ⟨change, redeems⟩ := w
      obtain ⟨hrest, hdoc⟩ := serve_putIf hserve
      rcases hdoc with hdoc | ⟨hpass, hdoc⟩
      · have ht : t = c.state := by
          calc t = ⟨t.doc, t.rest⟩ := rfl
            _ = ⟨c.state.doc, c.state.rest⟩ := by rw [hdoc, hrest]
            _ = c.state := rfl
        refine hsame ht ?_ rfl rfl
        · have hrev : t.doc.rev = c.state.doc.rev := congrArg Document.rev hdoc
          cases change with
          | rekeyAndRotate oldSid newSid newHash idle => simp [rotation, hrev]
          | _ => rfl
      have hrev : t.doc.rev ≠ c.state.doc.rev := by
        rw [hdoc, hpass]
        exact Nat.succ_ne_self _
      obtain ⟨base, hbase, -, hrows⟩ := rows_of_written (written_of_putIf hc hGa hτ hserve) rfl hrev
      refine hI.write hbase rfl (hrows ▸ bound_subperm e _) hrest hrev ?_ ?_
      · rintro row rfl
        obtain ⟨-, claims, hsid, hfrom⟩ := hknows.creates row redeems e current value rfl
        simp only [Rotates, Service.action, hτ] at hrotates
        refine ⟨?_, hrotates hpass⟩
        rw [hsid]
        rcases hfrom with ⟨y, hy, hminted⟩ | ⟨⟨y, hy, hverified⟩, -, -⟩
        · exact .inl ⟨_, hI.mints y (mem_own.mp hy).1 none claims hminted, rfl, rfl⟩
        · exact hI.handed _ (hI.verifies y (mem_own.mp hy).1 claims hverified).1
      · rintro oldSid newSid newHash idle rfl
        obtain ⟨hsentinel, y, hy, claims, hminted, hsid⟩ :=
          hknows.rotates oldSid newSid newHash idle redeems e current value rfl
        exact ⟨hsentinel, _, hI.mints y (mem_own.mp hy).1 _ claims hminted, hsid, rfl⟩

end Runs

end AgenticKibana.Sessions
