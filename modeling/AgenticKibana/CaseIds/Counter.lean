import AgenticKibana.CaseIds.SetOff
import AgenticKibana.Library.Machine

/-!
# The numbers of the cases

`allocate_case_number` draws from the counter of a period and renders the number.
`SequenceStore.next` reads the counter and writes it back; creations take turns at both calls, and a
write that fails may have taken effect all the same.  The store has an atomic counter beside this
one, for a Redis client that no caller supplies.
-/

namespace AgenticKibana.CaseIds

open AgenticKibana.Library List

inductive ResetPeriod where
  | never
  | calendarYear
  | fiscalYear
  | fiscalQuarter

/-- `reset_bucket`. -/
def resetBucket (period : ResetPeriod) (now : Created) : Text :=
  let fy := if 4 ≤ now.month then now.year + 1 else now.year
  match period with
  | .never => "all".toList
  | .calendarYear => 'y' :: Nat.toDigits 10 now.year
  | .fiscalYear => "fy".toList ++ Nat.toDigits 10 fy
  | .fiscalQuarter =>
    "fy".toList ++ Nat.toDigits 10 fy ++ 'q' :: Nat.toDigits 10 ((now.month + 8) % 12 / 3 + 1)

structure CaseIdFormat where
  enabled : Bool := false
  template : Text := defaultTemplate
  numberPrefix : Text := "CASE".toList
  resetPeriod : ResetPeriod := .never
  seqStart : Nat := 1

/-- The arguments of `allocate_case_number`. -/
structure Allocation where
  fmt : CaseIdFormat
  source : Text := []
  createdAt : Option Created := none
  bucketAt : Option Created := none

inductive SeqStage where
  | off
  | get
  | put (nxt : Nat)
  | returned (seq : Nat) (number : Text)

structure Creation where
  request : Allocation
  bucket : Text
  stage : SeqStage

/-- `SequenceStore._key`. -/
def Creation.key (c : Creation) : Text :=
  (if c.request.fmt.numberPrefix = [] then "CASE".toList else c.request.fmt.numberPrefix) ++
    ':' :: c.bucket

structure SeqWorld where
  kv : Text → Option Nat
  creations : Nat → Option Creation

def nextNumber (start : Nat) (doc : Option Nat) : Nat :=
  let current := doc.getD 0
  if start ≤ current then current + 1 else start

inductive SeqMove where
  | create (τ : Nat) (r : Allocation) (now : Created)
  | call (τ : Nat) (ok applied : Bool) (now : Created)

def enter (w : SeqWorld) (τ : Nat) (c : Creation) : SeqWorld :=
  { w with creations := Function.update w.creations τ (some c) }

def begun (r : Allocation) (now : Created) : Creation :=
  ⟨r, resetBucket r.fmt.resetPeriod ((r.bucketAt.orElse fun _ => r.createdAt).getD now),
    if r.fmt.enabled then .get else .off⟩

/-- Numbers are written as texts; there is none where rendering fails. -/
def Allocation.number (digit : Char → Option Nat) (r : Allocation) (now : Created) (seq : Nat) :
    Text :=
  (render digit r.fmt.template r.fmt.numberPrefix
    ⟨r.source, none, r.createdAt.getD now⟩ seq).getD []

def Creation.read (c : Creation) (doc : Option Nat) : Creation :=
  { c with stage := .put (nextNumber c.request.fmt.seqStart doc) }

def Creation.write (digit : Char → Option Nat) (c : Creation) (nxt : Nat) (now : Created) :
    Creation :=
  { c with stage := .returned nxt (c.request.number digit now nxt) }

def seqStep (digit : Char → Option Nat) (w : SeqWorld) : SeqMove → Option SeqWorld
  | .create τ r now =>
    match w.creations τ with
    | none => some (enter w τ (begun r now))
    | some _ => none
  | .call τ ok applied now =>
    (w.creations τ).bind fun c =>
      match c.stage with
      | .get => some (enter w τ (c.read (if ok then w.kv c.key else none)))
      | .put nxt =>
        let written := if ok || applied then Function.update w.kv c.key (some nxt) else w.kv
        some (enter ⟨written, w.creations⟩ τ (c.write digit nxt now))
      | _ => none

/-- The counters are what earlier runs left. -/
def seqMachine (digit : Char → Option Nat) : Machine SeqWorld SeqMove where
  start w := ∀ τ, w.creations τ = none
  step := seqStep digit

/-- Two creations number their cases by one template in one period. -/
def SamePeriod (c c' : Creation) : Prop :=
  c.request.fmt.template = c'.request.fmt.template ∧
    c.request.fmt.numberPrefix = c'.request.fmt.numberPrefix ∧ c.bucket = c'.bucket

def ToldApart (c c' : Creation) : Prop :=
  TellsApart c.request.fmt.template c.request.fmt.numberPrefix c.request.source c'.request.source

/-- No read fails, no write is lost, no creation reads a counter that another has read and is about
to write, and the template tells the cases of one period apart. -/
def Undisturbed (w : SeqWorld) : SeqMove → Prop
  | .create _ r now =>
    r.fmt.enabled = true → ∀ τ' c', w.creations τ' = some c' → c'.stage ≠ .off →
      SamePeriod (begun r now) c' → ToldApart (begun r now) c'
  | .call τ ok applied _ =>
    ∀ c, w.creations τ = some c →
      (c.stage = .get → ok = true ∧ ∀ τ' c' nxt, w.creations τ' = some c' → c'.stage = .put nxt →
        c'.key ≠ c.key) ∧
      ∀ nxt, c.stage = .put nxt → (ok || applied) = true

/-- A creation got a number for its case. -/
def Received (w : SeqWorld) (τ : Nat) (c : Creation) (number : Text) : Prop :=
  w.creations τ = some c ∧ (∃ seq, c.stage = .returned seq number) ∧ number ≠ []

section Runs

variable {digit : Char → Option Nat} {w w' : SeqWorld} {move : SeqMove} {τ τ' : Nat}
  {c c' : Creation} {r : Allocation} {now : Created} {n nxt : Nat} {text : Text}

/-- Every number that was drawn is covered by its counter, every number that is about to be
written is above it, and the templates of a period tell the cases apart. -/
structure Counted (digit : Char → Option Nat) (w : SeqWorld) : Prop where
  pending : ∀ τ c n, w.creations τ = some c → c.stage = .put n → ∀ v, w.kv c.key = some v → v < n
  alone : ∀ τ τ' c c' n n', w.creations τ = some c → w.creations τ' = some c' →
    c.stage = .put n → c'.stage = .put n' → c.key = c'.key → τ = τ'
  given : ∀ τ c n text, w.creations τ = some c → c.stage = .returned n text →
    (∃ v, w.kv c.key = some v ∧ n ≤ v) ∧ ∃ now, text = c.request.number digit now n
  distinct : ∀ τ τ' c c' n text text', w.creations τ = some c → w.creations τ' = some c' →
    c.stage = .returned n text → c'.stage = .returned n text' → c.key = c'.key → τ = τ'
  told : ∀ τ τ' c c', w.creations τ = some c → w.creations τ' = some c' → c.stage ≠ .off →
    c'.stage ≠ .off → τ ≠ τ' → SamePeriod c c' → ToldApart c c'

theorem enter_cases (h : (enter w τ c).creations τ' = some c') :
    (τ' = τ ∧ c' = c) ∨ (τ' ≠ τ ∧ w.creations τ' = some c') := by
  dsimp only [enter] at h
  by_cases heq : τ' = τ
  · subst heq
    rw [Function.update_self] at h
    exact .inl ⟨rfl, (Option.some.inj h).symm⟩
  · rw [Function.update_of_ne heq] at h
    exact .inr ⟨heq, h⟩

/-- What an undisturbed step does: a creation begins, reads its counter, or writes it. -/
theorem seqStep_cases (hquiet : Undisturbed w move) (h : seqStep digit w move = some w') :
    (∃ τ r now, w' = enter w τ (begun r now) ∧
      ((begun r now).stage ≠ .off → ∀ τ' c', w.creations τ' = some c' → c'.stage ≠ .off →
        SamePeriod (begun r now) c' → ToldApart (begun r now) c')) ∨
    (∃ τ c, w.creations τ = some c ∧ c.stage = .get ∧
      (∀ τ' c' nxt, w.creations τ' = some c' → c'.stage = .put nxt → c'.key ≠ c.key) ∧
      w' = enter w τ (c.read (w.kv c.key))) ∨
    ∃ τ c nxt now, w.creations τ = some c ∧ c.stage = .put nxt ∧
      w' = enter ⟨Function.update w.kv c.key (some nxt), w.creations⟩ τ
        (c.write digit nxt now) := by
  cases move with
  | create τ r now =>
    cases hτ : w.creations τ with
    | some _ => simp [seqStep, hτ] at h
    | none =>
      simp only [seqStep, hτ, Option.some.injEq] at h
      refine .inl ⟨τ, r, now, h.symm, fun hon => hquiet ?_⟩
      by_contra hoff
      exact hon (if_neg hoff)
  | call τ ok applied now =>
    simp only [seqStep, Option.bind_eq_some_iff] at h
    obtain ⟨c, hτ, h⟩ := h
    obtain ⟨hread, hwrite⟩ := hquiet c hτ
    cases hstage : c.stage with
    | off | returned => simp [hstage] at h
    | get =>
      obtain ⟨rfl, hothers⟩ := hread hstage
      simp only [hstage, Option.some.injEq, if_true] at h
      exact .inr (.inl ⟨τ, c, hτ, hstage, hothers, h.symm⟩)
    | put nxt =>
      simp only [hstage, Option.some.injEq, hwrite nxt hstage, if_true] at h
      exact .inr (.inr ⟨τ, c, nxt, now, hτ, hstage, h.symm⟩)

theorem lt_nextNumber (start : Nat) {doc : Option Nat} {v : Nat} (h : doc = some v) :
    v < nextNumber start doc := by
  subst h
  unfold nextNumber
  rw [Option.getD_some]
  dsimp only
  split <;> omega

theorem ToldApart.symm (hperiod : SamePeriod c c') (h : ToldApart c c') : ToldApart c' c := by
  obtain ⟨htemplate, hprefix, -⟩ := hperiod
  obtain ⟨hseq, hsource⟩ := h
  unfold ToldApart
  rw [← htemplate, ← hprefix]
  exact ⟨hseq, hsource.imp_left Eq.symm⟩

theorem Counted.create (h : Counted digit w) (τ : Nat) (r : Allocation) (now : Created)
    (htold : (begun r now).stage ≠ .off → ∀ τ' c', w.creations τ' = some c' → c'.stage ≠ .off →
      SamePeriod (begun r now) c' → ToldApart (begun r now) c') :
    Counted digit (enter w τ (begun r now)) := by
  have hstage : (begun r now).stage = .get ∨ (begun r now).stage = .off := by
    unfold begun
    cases r.fmt.enabled <;> simp
  have hold : ∀ {τ' c'}, (enter w τ (begun r now)).creations τ' = some c' → c'.stage ≠ .get →
      c'.stage ≠ .off → w.creations τ' = some c' := by
    intro τ' c' hτ' hget hoff
    rcases enter_cases hτ' with ⟨-, rfl⟩ | ⟨-, hold⟩
    · exact absurd hstage (not_or.mpr ⟨hget, hoff⟩)
    · exact hold
  refine ⟨fun τ' c' n hτ' hput => ?_, fun τ1 τ2 c1 c2 n1 n2 h1 h2 hput1 hput2 => ?_,
    fun τ' c' n text hτ' hret => ?_, fun τ1 τ2 c1 c2 n t1 t2 h1 h2 hret1 hret2 => ?_,
    fun τ1 τ2 c1 c2 h1 h2 hoff1 hoff2 hne hperiod => ?_⟩
  · exact h.pending τ' c' n (hold hτ' (by simp [hput]) (by simp [hput])) hput
  · exact h.alone τ1 τ2 c1 c2 n1 n2 (hold h1 (by simp [hput1]) (by simp [hput1]))
      (hold h2 (by simp [hput2]) (by simp [hput2])) hput1 hput2
  · exact h.given τ' c' n text (hold hτ' (by simp [hret]) (by simp [hret])) hret
  · exact h.distinct τ1 τ2 c1 c2 n t1 t2 (hold h1 (by simp [hret1]) (by simp [hret1]))
      (hold h2 (by simp [hret2]) (by simp [hret2])) hret1 hret2
  · rcases enter_cases h1 with ⟨rfl, rfl⟩ | ⟨-, hold1⟩
    · rcases enter_cases h2 with ⟨rfl, -⟩ | ⟨-, hold2⟩
      · exact absurd rfl hne
      · exact htold hoff1 τ2 c2 hold2 hoff2 hperiod
    · rcases enter_cases h2 with ⟨rfl, rfl⟩ | ⟨-, hold2⟩
      · have hback : SamePeriod (begun r now) c1 :=
          ⟨hperiod.1.symm, hperiod.2.1.symm, hperiod.2.2.symm⟩
        exact (htold hoff2 τ1 c1 hold1 hoff1 hback).symm hback
      · exact h.told τ1 τ2 c1 c2 hold1 hold2 hoff1 hoff2 hne hperiod

/-- A creation that goes on is told apart as before. -/
theorem told_of_goes_on {kv : Text → Option Nat} {stage : SeqStage} (h : Counted digit w)
    (hτ : w.creations τ = some c) (hoff : c.stage ≠ .off) :
    ∀ τ1 τ2 c1 c2, (enter ⟨kv, w.creations⟩ τ { c with stage }).creations τ1 = some c1 →
      (enter ⟨kv, w.creations⟩ τ { c with stage }).creations τ2 = some c2 → c1.stage ≠ .off →
      c2.stage ≠ .off → τ1 ≠ τ2 → SamePeriod c1 c2 → ToldApart c1 c2 := by
  have hold : ∀ {τ' c'}, (enter ⟨kv, w.creations⟩ τ { c with stage }).creations τ' = some c' →
      c'.stage ≠ .off → ∃ c0, w.creations τ' = some c0 ∧ c0.stage ≠ .off ∧
        c0.request = c'.request ∧ c0.bucket = c'.bucket := by
    intro τ' c' hτ' hoff'
    rcases enter_cases hτ' with ⟨rfl, rfl⟩ | ⟨-, hold⟩
    · exact ⟨c, hτ, hoff, rfl, rfl⟩
    · exact ⟨c', hold, hoff', rfl, rfl⟩
  intro τ1 τ2 c1 c2 h1 h2 hoff1 hoff2 hne hperiod
  obtain ⟨d1, hd1, hon1, hreq1, hbucket1⟩ := hold h1 hoff1
  obtain ⟨d2, hd2, hon2, hreq2, hbucket2⟩ := hold h2 hoff2
  have htold := h.told τ1 τ2 d1 d2 hd1 hd2 hon1 hon2 hne
  unfold SamePeriod ToldApart at htold
  rw [hreq1, hreq2, hbucket1, hbucket2] at htold
  exact htold hperiod

theorem Counted.get (h : Counted digit w) (hτ : w.creations τ = some c) (hget : c.stage = .get)
    (hothers : ∀ τ' c' nxt, w.creations τ' = some c' → c'.stage = .put nxt → c'.key ≠ c.key) :
    Counted digit (enter w τ (c.read (w.kv c.key))) := by
  refine ⟨fun τ' c' n hτ' hput v hv => ?_, fun τ1 τ2 c1 c2 n1 n2 h1 h2 hput1 hput2 hkey => ?_,
    fun τ' c' n text hτ' hret => ?_, fun τ1 τ2 c1 c2 n t1 t2 h1 h2 hret1 hret2 => ?_,
    told_of_goes_on h hτ (by simp [hget])⟩
  · rcases enter_cases hτ' with ⟨-, rfl⟩ | ⟨-, hold⟩
    · cases hput
      exact lt_nextNumber _ hv
    · exact h.pending τ' c' n hold hput v hv
  · rcases enter_cases h1 with ⟨rfl, rfl⟩ | ⟨-, hold1⟩
    · rcases enter_cases h2 with ⟨rfl, -⟩ | ⟨-, hold2⟩
      · rfl
      · exact absurd hkey.symm (hothers τ2 c2 n2 hold2 hput2)
    · rcases enter_cases h2 with ⟨rfl, rfl⟩ | ⟨-, hold2⟩
      · exact absurd hkey (hothers τ1 c1 n1 hold1 hput1)
      · exact h.alone τ1 τ2 c1 c2 n1 n2 hold1 hold2 hput1 hput2 hkey
  · rcases enter_cases hτ' with ⟨-, rfl⟩ | ⟨-, hold⟩
    · cases hret
    · exact h.given τ' c' n text hold hret
  · rcases enter_cases h1 with ⟨-, rfl⟩ | ⟨-, hold1⟩
    · cases hret1
    · rcases enter_cases h2 with ⟨-, rfl⟩ | ⟨-, hold2⟩
      · cases hret2
      · exact h.distinct τ1 τ2 c1 c2 n t1 t2 hold1 hold2 hret1 hret2

theorem kv_rises (h : Counted digit w) (hτ : w.creations τ = some c) (hput : c.stage = .put nxt)
    (k : Text) (v : Nat) (hv : w.kv k = some v) :
    ∃ v', Function.update w.kv c.key (some nxt) k = some v' ∧ v ≤ v' := by
  by_cases hk : k = c.key
  · subst hk
    exact ⟨nxt, Function.update_self .., (h.pending τ c nxt hτ hput v hv).le⟩
  · exact ⟨v, by rw [Function.update_of_ne hk, hv], le_rfl⟩

theorem Counted.put (h : Counted digit w) (hτ : w.creations τ = some c)
    (hput : c.stage = .put nxt) :
    Counted digit (enter ⟨Function.update w.kv c.key (some nxt), w.creations⟩ τ
      (c.write digit nxt now)) := by
  have hfresh : ∀ {τ' c' n text}, w.creations τ' = some c' → c'.stage = .returned n text →
      c'.key = c.key → n < nxt := by
    intro τ' c' n text hold hret hkey
    obtain ⟨v, hv, hle⟩ := (h.given τ' c' n text hold hret).1
    exact hle.trans_lt (h.pending τ c nxt hτ hput v (hkey ▸ hv))
  refine ⟨fun τ' c' n hτ' hput' v hv => ?_, fun τ1 τ2 c1 c2 n1 n2 h1 h2 hput1 hput2 hkey => ?_,
    fun τ' c' n text hτ' hret => ?_, fun τ1 τ2 c1 c2 n t1 t2 h1 h2 hret1 hret2 hkey => ?_,
    told_of_goes_on h hτ (by simp [hput])⟩
  · rcases enter_cases hτ' with ⟨-, rfl⟩ | ⟨hne, hold⟩
    · cases hput'
    · have hkey : c'.key ≠ c.key :=
        fun hkey => hne (h.alone τ' τ c' c n nxt hold hτ hput' hput hkey)
      exact h.pending τ' c' n hold hput' v ((Function.update_of_ne hkey ..).symm.trans hv)
  · rcases enter_cases h1 with ⟨-, rfl⟩ | ⟨-, hold1⟩
    · cases hput1
    · rcases enter_cases h2 with ⟨-, rfl⟩ | ⟨-, hold2⟩
      · cases hput2
      · exact h.alone τ1 τ2 c1 c2 n1 n2 hold1 hold2 hput1 hput2 hkey
  · rcases enter_cases hτ' with ⟨-, rfl⟩ | ⟨-, hold⟩
    · cases hret
      exact ⟨⟨nxt, Function.update_self .., le_rfl⟩, now, rfl⟩
    · obtain ⟨⟨v, hv, hle⟩, htext⟩ := h.given τ' c' n text hold hret
      obtain ⟨v', hv', hrise⟩ := kv_rises h hτ hput _ v hv
      exact ⟨⟨v', hv', hle.trans hrise⟩, htext⟩
  · rcases enter_cases h1 with ⟨rfl, rfl⟩ | ⟨-, hold1⟩
    · rcases enter_cases h2 with ⟨rfl, -⟩ | ⟨-, hold2⟩
      · rfl
      · cases hret1
        exact absurd (hfresh hold2 hret2 hkey.symm) (lt_irrefl _)
    · rcases enter_cases h2 with ⟨rfl, rfl⟩ | ⟨-, hold2⟩
      · cases hret2
        exact absurd (hfresh hold1 hret1 hkey) (lt_irrefl _)
      · exact h.distinct τ1 τ2 c1 c2 n t1 t2 hold1 hold2 hret1 hret2 hkey

theorem counted_of_reaches (h : (seqMachine digit).Reaches Undisturbed w) : Counted digit w := by
  refine Machine.invariant ?_ ?_ h
  · intro w hstart
    have hnone : ∀ τ, w.creations τ = none := hstart
    constructor <;> simp [hnone]
  · intro w move w' hcounted hquiet hstep
    rcases seqStep_cases hquiet hstep with ⟨τ, r, now, rfl, htold⟩ |
      ⟨τ, c, hτ, hget, hothers, rfl⟩ | ⟨τ, c, nxt, now, hτ, hput, rfl⟩
    · exact hcounted.create τ r now htold
    · exact hcounted.get hτ hget hothers
    · exact hcounted.put hτ hput

/-- Two creations of one period that got one text drew one number. -/
theorem seq_of_text {now' : Created} {n' : Nat} (hperiod : SamePeriod c c') (htold : ToldApart c c')
    (hne : c.request.number digit now n ≠ [])
    (htext : c.request.number digit now n = c'.request.number digit now' n') : n = n' := by
  obtain ⟨htemplate, hprefix, -⟩ := hperiod
  have hrendered : ∀ {r : Allocation} {now : Created} {n : Nat}, r.number digit now n ≠ [] →
      render digit r.fmt.template r.fmt.numberPrefix ⟨r.source, none, r.createdAt.getD now⟩ n =
        some (r.number digit now n) := by
    intro r now n hne
    unfold Allocation.number at hne ⊢
    cases hrender : render digit r.fmt.template r.fmt.numberPrefix
      ⟨r.source, none, r.createdAt.getD now⟩ n with
    | none => simp [hrender] at hne
    | some text => rfl
  have hn := hrendered hne
  have hn' := hrendered (htext ▸ hne)
  rw [← htemplate, ← hprefix, ← htext] at hn'
  refine eq_of_render ?_ ?_ ?_ hn hn'
  · rfl
  · rfl
  · exact htold

/-- **Where no read fails, no write is lost, no creation reads what another is about to write and
the template tells the cases of a period apart, two cases never get one number, and no counter
decreases.** -/
theorem numbers_distinct (h : (seqMachine digit).Reaches Undisturbed w) :
    (∀ τ τ' c c' number, Received w τ c number → Received w τ' c' number → SamePeriod c c' →
      τ = τ') ∧
    ∀ move w', Undisturbed w move → (seqMachine digit).step w move = some w' →
      ∀ k v, w.kv k = some v → ∃ v', w'.kv k = some v' ∧ v ≤ v' := by
  have hcounted := counted_of_reaches h
  constructor
  · rintro τ τ' c c' number ⟨hτ, ⟨n, hret⟩, hne⟩ ⟨hτ', ⟨n', hret'⟩, -⟩ hperiod
    by_contra hother
    have htold := hcounted.told τ τ' c c' hτ hτ' (by simp [hret]) (by simp [hret']) hother hperiod
    obtain ⟨-, now, htext⟩ := hcounted.given τ c n number hτ hret
    obtain ⟨-, now', htext'⟩ := hcounted.given τ' c' n' number hτ' hret'
    have hseq : n = n' := seq_of_text hperiod htold (htext ▸ hne) (htext.symm.trans htext')
    subst hseq
    have hkey : c.key = c'.key := by rw [Creation.key, Creation.key, hperiod.2.1, hperiod.2.2]
    exact hother (hcounted.distinct τ τ' c c' n number number hτ hτ' hret hret' hkey)
  · intro move w' hquiet hstep k v hv
    rcases seqStep_cases hquiet hstep with ⟨τ, r, now, rfl, -⟩ | ⟨τ, c, -, -, -, rfl⟩ |
      ⟨τ, c, nxt, now, hτ, hput, rfl⟩
    · exact ⟨v, hv, le_rfl⟩
    · exact ⟨v, hv, le_rfl⟩
    · exact kv_rises hcounted hτ hput k v hv

end Runs

def noCounters : SeqWorld := ⟨fun _ => none, fun _ => none⟩

def caseRequest : Allocation := { fmt := { enabled := true } }

/-- A creation that nothing disturbs and that its template tells apart gets its number. -/
theorem reaches_allocated {digit : Char → Option Nat} {w : SeqWorld} {τ : Nat} {r : Allocation}
    {now : Created} (h : (seqMachine digit).Reaches Undisturbed w) (hτ : w.creations τ = none)
    (hon : r.fmt.enabled = true)
    (hquiet : ∀ τ' c' nxt, w.creations τ' = some c' → c'.stage ≠ .put nxt)
    (htold : ∀ τ' c', w.creations τ' = some c' → ToldApart (begun r now) c') :
    ∃ n, n = nextNumber r.fmt.seqStart (w.kv (begun r now).key) ∧
      (seqMachine digit).Reaches Undisturbed
        (enter ⟨Function.update w.kv (begun r now).key (some n), w.creations⟩ τ
          ((begun r now).write digit n now)) := by
  have hget : (begun r now).stage = .get := if_pos hon
  have hself : ∀ (w : SeqWorld) c, (enter w τ c).creations τ = some c := fun w c =>
    Function.update_self ..
  refine ⟨_, rfl, ?_⟩
  have h1 := h.step (e := SeqMove.create τ r now) (t := enter w τ (begun r now))
    (fun _ τ' c' hτ' _ _ => htold τ' c' hτ') (by simp [seqMachine, seqStep, hτ])
  have h2 := h1.step (e := SeqMove.call τ true true now)
    (t := enter w τ ((begun r now).read (w.kv (begun r now).key))) ?_
    (by simp [seqMachine, seqStep, hget, enter])
  · refine h2.step (e := SeqMove.call τ true true now) ?_ ?_
    · intro c hc
      obtain rfl := Option.some.inj ((hself ..).symm.trans hc)
      exact ⟨fun hget => (by cases hget), fun _ _ => rfl⟩
    · simp only [seqMachine, seqStep, enter, Function.update_self, Option.bind_some, Creation.read,
        Function.update_idem, Bool.or_self, if_true]
      rfl
  · intro c hc
    obtain rfl := Option.some.inj ((hself ..).symm.trans hc)
    refine ⟨fun _ => ⟨rfl, fun τ' c' nxt hτ' hput => ?_⟩, fun _ hput => ?_⟩
    · rcases enter_cases hτ' with ⟨-, rfl⟩ | ⟨-, hold⟩
      · rw [hget] at hput
        cases hput
      · exact absurd hput (hquiet τ' c' nxt hold)
    · rw [hget] at hput
      cases hput

def numbered (seq : Nat) (number : String) : Creation :=
  ⟨caseRequest, "all".toList, .returned seq number.toList⟩

theorem told_default : ToldApart (begun caseRequest someDay) (numbered 1 "CASE-000001") := by
  refine ⟨⟨"seq".toList, some ":06d".toList, ?_, rfl⟩, .inl rfl⟩
  have hpieces : pieces defaultTemplate =
      [.text "CASE-".toList, .token "seq".toList (some ":06d".toList), .text []] := rfl
  change _ ∈ pieces defaultTemplate
  simp [hpieces]

theorem one_after_another : ∃ w, (seqMachine asciiDigit).Reaches Undisturbed w ∧
    Received w 0 (numbered 1 "CASE-000001") "CASE-000001".toList ∧
    Received w 1 (numbered 2 "CASE-000002") "CASE-000002".toList := by
  have hstart : (seqMachine asciiDigit).start noCounters := fun _ => rfl
  obtain ⟨n, hn, h1⟩ :=
    @reaches_allocated asciiDigit noCounters 0 caseRequest someDay (.start hstart)
    rfl rfl (fun _ _ _ h => by cases h) (fun _ _ h => by cases h)
  obtain rfl : n = 1 := hn
  have hfirst : (begun caseRequest someDay).write asciiDigit 1 someDay =
    numbered 1 "CASE-000001" := by
    rfl
  rw [hfirst] at h1
  have honly : ∀ {w : SeqWorld} {τ' c'}, (∀ τ, w.creations τ = none) →
      (enter w 0 (numbered 1 "CASE-000001")).creations τ' = some c' →
      c' = numbered 1 "CASE-000001" := by
    intro w τ' c' hnone hτ'
    rcases enter_cases hτ' with ⟨-, rfl⟩ | ⟨-, hold⟩
    · rfl
    · simp [hnone] at hold
  obtain ⟨n, hn, h2⟩ := @reaches_allocated asciiDigit _ 1 caseRequest someDay h1 rfl rfl
    (fun _ _ _ h => by rw [honly (fun _ => rfl) h]; simp [numbered])
    (fun _ _ h => by rw [honly (fun _ => rfl) h]; exact told_default)
  obtain rfl : n = 2 := hn
  exact ⟨_, h2, ⟨rfl, ⟨1, rfl⟩, by decide⟩, rfl, ⟨2, rfl⟩, by decide⟩

theorem one_after_another_distinct : ∃ w : SeqWorld,
    Received w 0 (numbered 1 "CASE-000001") "CASE-000001".toList ∧
    Received w 1 (numbered 2 "CASE-000002") "CASE-000002".toList ∧
    (∀ τ τ' c c' number, Received w τ c number → Received w τ' c' number → SamePeriod c c' →
      τ = τ') ∧
    ∀ move w', Undisturbed w move → (seqMachine asciiDigit).step w move = some w' →
      ∀ k v, w.kv k = some v → ∃ v', w'.kv k = some v' ∧ v ≤ v' := by
  obtain ⟨w, hreaches, hfirst, hsecond⟩ := one_after_another
  exact ⟨w, hfirst, hsecond, numbers_distinct hreaches⟩

def plainRequest : Allocation := { fmt := { enabled := true, template := "CASE".toList } }

/-- Two cases get one number where both creations read before either writes, where the first write
is lost, and where the template has no sequence number; a read that fails sets a counter back. -/
theorem numbers_repeat :
    (∀ es ∈ [[SeqMove.create 0 caseRequest someDay, .create 1 caseRequest someDay,
        .call 0 true true someDay, .call 1 true true someDay, .call 0 true true someDay,
        .call 1 true true someDay],
        [.create 0 caseRequest someDay, .call 0 true true someDay, .call 0 false false someDay,
          .create 1 caseRequest someDay, .call 1 true true someDay, .call 1 true true someDay]],
      ∃ w, (seqMachine asciiDigit).run noCounters es = some w ∧
        Received w 0 (numbered 1 "CASE-000001") "CASE-000001".toList ∧
        Received w 1 (numbered 1 "CASE-000001") "CASE-000001".toList) ∧
    (∃ w c c', (seqMachine asciiDigit).run noCounters
        [.create 0 plainRequest someDay, .call 0 true true someDay, .call 0 true true someDay,
          .create 1 plainRequest someDay, .call 1 true true someDay, .call 1 true true someDay] =
        some w ∧ Received w 0 c "CASE".toList ∧ Received w 1 c' "CASE".toList ∧ SamePeriod c c') ∧
    ∃ w w' : SeqWorld, (seqMachine asciiDigit).Reaches Machine.anyStep w ∧
      (seqMachine asciiDigit).step w (.call 0 true true someDay) = some w' ∧
      w.kv "CASE:all".toList = some 7 ∧ w'.kv "CASE:all".toList = some 1 := by
  refine ⟨fun es hes => ?_, ?_, ?_⟩
  · rcases List.mem_pair.mp hes with rfl | rfl
    · exact ⟨_, rfl, ⟨rfl, ⟨1, rfl⟩, by decide⟩, rfl, ⟨1, rfl⟩, by decide⟩
    · exact ⟨_, rfl, ⟨rfl, ⟨1, rfl⟩, by decide⟩, rfl, ⟨1, rfl⟩, by decide⟩
  · exact ⟨_, _, _, rfl, ⟨rfl, ⟨1, rfl⟩, by decide⟩, ⟨rfl, ⟨2, rfl⟩, by decide⟩, rfl, rfl, rfl⟩
  · exact ⟨_, _, ⟨⟨fun _ => some 7, fun _ => none⟩,
      [.create 0 caseRequest someDay, .call 0 false false someDay], fun _ => rfl,
      Machine.throughout_anyStep _ _ _, rfl⟩, rfl, rfl, rfl⟩

end AgenticKibana.CaseIds
