import Mathlib.Data.List.Basic
import Mathlib.Data.Option.Basic
import Mathlib.Logic.Function.Basic

/-!
# Readers of a log in partitions

A broker keeps one log for each partition and at most one durable position, the number of messages
before it.  A session of the reader starts from the durable positions, or from the end of the log
or its beginning; it takes a few messages of one partition at a time, emits them one by one and
then moves the position past them.  It can be lost at any moment.

`emitted` and `since` are observations: which messages were part of an emit that succeeded, and
where the reader's first session began.
-/

namespace AgenticKibana.Library.Offsets

open Option

universe u v

variable {κ : Type u} {μ : Type v}

/-- The messages of one read: those from `next` on, before `upto`, still wait
for their emit. -/
structure Batch (κ : Type u) where
  source : κ
  next : Nat
  upto : Nat

/-- What a session holds: its own copy of the durable positions, how far it has
read each partition it reads, and the batch in hand. -/
structure Session (κ : Type u) where
  marks : κ → Option Nat
  positions : κ → Option Nat
  batch : Option (Batch κ)

structure World (κ : Type u) (μ : Type v) where
  log : κ → List μ
  saved : κ → Option Nat
  session : Option (Session κ)
  emitted : List (κ × Nat)
  since : Option (κ → Nat)

/-- Where reading starts: at the durable position, or, where there is none, at
the end of the log or at its beginning. -/
def resume (fromEnd : Bool) (log : κ → List μ) (marks : κ → Option Nat) (p : κ) : Nat :=
  (marks p).getD (if fromEnd then (log p).length else 0)

namespace World

section Operations
variable [DecidableEq κ]

def publish (w : World κ μ) (p : κ) (m : μ) : World κ μ :=
  { w with log := Function.update w.log p (w.log p ++ [m]) }

/-- A session begins from the positions `marks` on the partitions that are listed, all opened in
one move; a start that fails half-way changes nothing. -/
def begin (w : World κ μ) (fromEnd : Bool) (marks : κ → Option Nat) (listed : κ → Bool) :
    Option (World κ μ) :=
  match w.session with
  | some _ => none
  | none => some
      { w with
        session := some
          { marks
            positions := fun p => if listed p then some (resume fromEnd w.log marks p) else none
            batch := none }
        since := some (w.since.getD (resume fromEnd w.log marks)) }

/-- Read `n` messages of a partition, where there are as many. -/
def take (w : World κ μ) (p : κ) (n : Nat) : Option (World κ μ) :=
  match w.session with
  | none => none
  | some r =>
    match r.batch, r.positions p with
    | none, some k =>
      if 0 < n ∧ k + n ≤ (w.log p).length then
        some { w with
          session := some
            { r with
              positions := Function.update r.positions p (some (k + n))
              batch := some ⟨p, k, k + n⟩ } }
      else none
    | _, _ => none

def inHand (w : World κ μ) : Option (κ × Nat × μ) :=
  (w.session.bind fun r => r.batch).bind fun b =>
    if b.next < b.upto then (w.log b.source)[b.next]?.map fun m => (b.source, b.next, m) else none

/-- The emit of the next message in hand succeeds; a message that carries
nothing is passed over. -/
def emitNext (carries : μ → Bool) (w : World κ μ) : Option (World κ μ) :=
  match w.session, w.inHand with
  | some r, some (p, i, m) => some
      { w with
        session := some { r with batch := r.batch.map fun b => { b with next := i + 1 } }
        emitted := if carries m then (p, i) :: w.emitted else w.emitted }
  | _, _ => none

def drop (w : World κ μ) : World κ μ :=
  { w with session := w.session.map fun r => { r with batch := none } }

def done (w : World κ μ) : Option (Session κ × Batch κ) :=
  w.session.bind fun r => r.batch.bind fun b => if b.next = b.upto then some (r, b) else none

/-- The broker moves the durable position of one partition past the batch. -/
def commit (w : World κ μ) : Option (World κ μ) :=
  w.done.map fun (_, b) => { w.drop with saved := Function.update w.saved b.source (some b.upto) }

/-- The session moves its own copy past the batch and writes the whole copy;
where the write fails, the session goes on. -/
def save (w : World κ μ) (kept : Bool) : Option (World κ μ) :=
  w.done.map fun (r, b) =>
    let marks := Function.update r.marks b.source (some b.upto)
    { w with
      session := some { r with marks, batch := none }
      saved := if kept then marks else w.saved }

def lose (w : World κ μ) : Option (World κ μ) :=
  w.session.map fun _ => { w with session := none }

end Operations

/-- The first session began at or before message `i`. -/
def After (w : World κ μ) (p : κ) (i : Nat) : Prop := ∃ b, w.since = some b ∧ b p ≤ i

/-- Every message from the first session on and before `c` was emitted. -/
def Covered (w : World κ μ) (p : κ) (c : Nat) : Prop :=
  ∀ i, w.After p i → i < c → (p, i) ∈ w.emitted

/-- Message `i` is in the batch of the session and waits for its emit. -/
def Waits (r : Session κ) (p : κ) (i : Nat) : Prop :=
  ∃ b, r.batch = some b ∧ b.source = p ∧ b.next ≤ i ∧ i < b.upto

/-- Message `i` is still to be delivered to the reader: its session has it in
hand or reads the partition from a position not after it, and without a session
the next one begins at such a position. -/
def Due (fromEnd : Bool) (w : World κ μ) (p : κ) (i : Nat) : Prop :=
  match w.session with
  | some r => (∃ k, r.positions p = some k ∧ k ≤ i) ∨ Waits r p i
  | none => resume fromEnd w.log w.saved p ≤ i

/-- **At least once**: from the first session on, every message was emitted or
is still due, and no durable position covers a message that was not emitted. -/
structure AtLeastOnce (fromEnd : Bool) (w : World κ μ) : Prop where
  delivered : ∀ p i, w.After p i → i < (w.log p).length →
    (p, i) ∈ w.emitted ∨ Due fromEnd w p i
  covered : ∀ p c, w.saved p = some c → w.Covered p c

structure Sound (fromEnd : Bool) (w : World κ μ) : Prop where
  saved : ∀ p c, w.saved p = some c → w.Covered p c
  marks : ∀ r, w.session = some r → ∀ p c, r.marks p = some c → w.Covered p c
  read : ∀ r, w.session = some r → ∀ p k, r.positions p = some k →
    ∀ i, w.After p i → i < k → (p, i) ∈ w.emitted ∨ Waits r p i
  unread : ∀ r, w.session = some r → ∀ p, r.positions p = none →
    w.Covered p (w.log p).length
  hand : ∀ r b, w.session = some r → r.batch = some b → r.positions b.source = some b.upto
  stopped : fromEnd = true → w.session = none → ∀ p, w.saved p = none →
    w.Covered p (w.log p).length

theorem Sound.atLeastOnce {fromEnd : Bool} {w : World κ μ} (h : Sound fromEnd w) :
    AtLeastOnce fromEnd w := by
  refine ⟨?_, h.saved⟩
  intro p i hafter hi
  by_cases hemitted : (p, i) ∈ w.emitted
  · exact .inl hemitted
  refine .inr ?_
  unfold Due
  cases hs : w.session with
  | some r =>
    simp only
    cases hp : r.positions p with
    | none => exact absurd (h.unread r hs p hp i hafter hi) hemitted
    | some k =>
      by_cases hk : k ≤ i
      · exact .inl ⟨k, rfl, hk⟩
      · have hread := h.read r hs p k hp i hafter (Nat.lt_of_not_le hk)
        exact .inr (hread.resolve_left hemitted)
  | none =>
    simp only [resume]
    cases hp : w.saved p with
    | some c =>
      by_contra hc
      exact hemitted (h.saved p c hp i hafter (Nat.lt_of_not_le hc))
    | none =>
      cases fromEnd with
      | true => exact absurd (h.stopped rfl hs p hp i hafter hi) hemitted
      | false => simp

theorem Sound.fresh {fromEnd : Bool} {w : World κ μ} (hsession : w.session = none)
    (hsince : w.since = none) : Sound fromEnd w := by
  have hafter : ∀ p i, ¬ w.After p i := by
    rintro p i ⟨b, hb, -⟩
    simp [hsince] at hb
  constructor
  · exact fun p c _ i hi => absurd hi (hafter p i)
  · simp [hsession]
  · simp [hsession]
  · simp [hsession]
  · simp [hsession]
  · exact fun _ _ p _ i hi => absurd hi (hafter p i)

/-! ### Each operation -/

section Steps
variable [DecidableEq κ] {fromEnd : Bool} {w w' : World κ μ}

/-- A message may be published where the session reads, and, without a session,
where the next one will not start behind it. -/
theorem Sound.publish (h : Sound fromEnd w) {p : κ} (m : μ)
    (hread : ∀ r, w.session = some r → r.positions p ≠ none)
    (hsaved : fromEnd = true → w.session = none → w.since ≠ none → w.saved p ≠ none) :
    Sound fromEnd (w.publish p m) := by
  constructor
  · exact h.saved
  · exact h.marks
  · exact h.read
  · intro r hr q hq i hafter hi
    have hqp : q ≠ p := by
      rintro rfl
      exact hread r hr hq
    refine h.unread r hr q hq i hafter ?_
    simpa [World.publish, hqp] using hi
  · exact h.hand
  · intro hend hnone q hq i hafter hi
    have hsince : w.since ≠ none := by
      obtain ⟨b, hb, -⟩ := hafter
      exact hb ▸ some_ne_none b
    have hqp : q ≠ p := by
      rintro rfl
      exact hsaved hend hnone hsince hq
    refine h.stopped hend hnone q hq i hafter ?_
    simpa [World.publish, hqp] using hi

omit [DecidableEq κ] in
theorem session_of_begin {marks : κ → Option Nat} {listed : κ → Bool}
    (hbegin : w.begin fromEnd marks listed = some w') : w.session = none := by
  unfold World.begin at hbegin
  split at hbegin
  · cases hbegin
  · assumption

/-- A session may begin with fewer marks than are saved where it then reads from the beginning, or
nothing is left to emit. -/
theorem Sound.begin (h : Sound fromEnd w) {marks : κ → Option Nat} {listed : κ → Bool}
    (hbegin : w.begin fromEnd marks listed = some w')
    (hmarks : ∀ p c, marks p = some c → w.saved p = some c)
    (hfirst : w.since = none → ∀ p c, w.saved p = some c → marks p = some c)
    (hend : fromEnd = true → ∀ p, marks p = none → w.Covered p (w.log p).length)
    (hlisted : ∀ p, listed p = false → ∀ i,
      w.since.getD (resume fromEnd w.log marks) p ≤ i → i < (w.log p).length →
        (p, i) ∈ w.emitted) :
    Sound fromEnd w' := by
  cases hs : w.session with
  | some r => simp [World.begin, hs] at hbegin
  | none =>
    simp only [World.begin, hs, Option.some.injEq] at hbegin
    subst hbegin
    -- A first session begins nowhere after a position it was given.
    have hmark : ∀ p c i, marks p = some c →
        w.since.getD (resume fromEnd w.log marks) p ≤ i → i < c → (p, i) ∈ w.emitted := by
      intro p c i hp hi hc
      cases hsince : w.since with
      | some b => exact h.saved p c (hmarks p c hp) i ⟨b, hsince, by simpa [hsince] using hi⟩ hc
      | none =>
        simp only [hsince, getD_none, resume, hp, getD_some] at hi
        omega
    constructor
    · rintro p c hp i ⟨b, hb, hi⟩ hc
      cases hb
      cases hsince : w.since with
      | some b => exact h.saved p c hp i ⟨b, hsince, by simpa [hsince] using hi⟩ hc
      | none => exact hmark p c i (hfirst hsince p c hp) hi hc
    · rintro r hr p c hp i ⟨b, hb, hi⟩ hc
      cases hb
      cases hr
      exact hmark p c i hp hi hc
    · rintro r hr p k hk i ⟨b, hb, hi⟩ hik
      cases hb
      cases hr
      simp only [ite_none_right_eq_some, Option.some.injEq] at hk
      obtain ⟨-, rfl⟩ := hk
      refine .inl ?_
      cases hp : marks p with
      | some c => exact hmark p c i hp hi (by simpa [resume, hp] using hik)
      | none =>
        cases fromEnd with
        | false => simp [resume, hp] at hik
        | true =>
          simp only [resume, hp, getD_none, if_true] at hik
          cases hsince : w.since with
          | some b =>
            exact hend rfl p hp i ⟨b, hsince, by simpa [hsince] using hi⟩ hik
          | none =>
            simp only [hsince, getD_none, resume, hp, if_true] at hi
            omega
    · rintro r hr p hp i ⟨b, hb, hi⟩ hlen
      cases hb
      cases hr
      have hno : listed p = false := by
        by_contra hyes
        simp [Bool.not_eq_false _ |>.mp hyes] at hp
      exact hlisted p hno i hi hlen
    · rintro r b hr hb
      cases hr
      cases hb
    · intro _ hnone
      cases hnone

theorem Sound.take (h : Sound fromEnd w) {p : κ} {n : Nat} (htake : w.take p n = some w') :
    Sound fromEnd w' := by
  cases hs : w.session with
  | none => simp [World.take, hs] at htake
  | some r =>
    simp only [World.take, hs] at htake
    split at htake
    · rename_i k hbatch hk
      rw [ite_none_right_eq_some, Option.some.injEq] at htake
      obtain ⟨-, rfl⟩ := htake
      constructor
      · exact h.saved
      · rintro _ ⟨⟩
        exact h.marks r hs
      · rintro _ ⟨⟩ q k' hq i hafter hi
        by_cases hqp : q = p
        · subst hqp
          simp only [Function.update_self, Option.some.injEq] at hq
          subst hq
          by_cases hik : i < k
          · have hread := h.read r hs q k hk i hafter hik
            refine .inl (hread.resolve_right ?_)
            simp [Waits, hbatch]
          · exact .inr ⟨_, rfl, rfl, Nat.le_of_not_lt hik, hi⟩
        · simp only [Function.update_of_ne hqp] at hq
          have hread := h.read r hs q k' hq i hafter hi
          refine .inl (hread.resolve_right ?_)
          simp [Waits, hbatch]
      · rintro _ ⟨⟩ q hq
        have hqp : q ≠ p := by
          rintro rfl
          simp at hq
        simp only [Function.update_of_ne hqp] at hq
        exact h.unread r hs q hq
      · rintro _ b ⟨⟩ ⟨⟩
        simp
      · intro _ hnone
        cases hnone
    · cases htake

omit [DecidableEq κ] in
theorem Sound.emitNext (h : Sound fromEnd w) {carries : μ → Bool}
    (hemit : w.emitNext carries = some w')
    (hcarries : ∀ p i m, w.inHand = some (p, i, m) → carries m = true) :
    Sound fromEnd w' := by
  unfold World.emitNext at hemit
  split at hemit
  · rename_i r p i m hs hin
    simp only [hcarries p i m hin, if_true, Option.some.injEq] at hemit
    subst hemit
    obtain ⟨b, hb, rfl, rfl⟩ : ∃ b, r.batch = some b ∧ b.source = p ∧ b.next = i := by
      simp only [inHand, hs, bind_some, bind_eq_some_iff,
        ite_none_right_eq_some, map_eq_some_iff, Prod.mk.injEq] at hin
      obtain ⟨b, hb, -, _, -, hp, hi, -⟩ := hin
      exact ⟨b, hb, hp, hi⟩
    have hcovered : ∀ q c, w.Covered q c → ∀ i, w.After q i → i < c →
        (q, i) ∈ (b.source, b.next) :: w.emitted :=
      fun q c hc i hafter hi => List.mem_cons_of_mem _ (hc i hafter hi)
    constructor
    · exact fun q c hq => hcovered q c (h.saved q c hq)
    · rintro _ ⟨⟩ q c hq
      exact hcovered q c (h.marks r hs q c hq)
    · rintro _ ⟨⟩ q k hq i hafter hi
      rcases h.read r hs q k hq i hafter hi with hold | ⟨b', hb', rfl, hlo, hhi⟩
      · exact .inl (List.mem_cons_of_mem _ hold)
      · obtain rfl : b = b' := Option.some.inj (hb.symm.trans hb')
        rcases Nat.lt_or_eq_of_le hlo with hlt | rfl
        · exact .inr ⟨{ b with next := b.next + 1 }, by simp [hb], rfl, hlt, hhi⟩
        · exact .inl (List.mem_cons_self ..)
    · rintro _ ⟨⟩ q hq
      exact hcovered q _ (h.unread r hs q hq)
    · rintro _ b' ⟨⟩ hb'
      simp only [hb, map_some, Option.some.injEq] at hb'
      subst hb'
      exact h.hand r b hs hb
    · intro _ hnone
      cases hnone
  · cases hemit

omit [DecidableEq κ] in
/-- A batch all of whose messages were emitted leaves its partition covered up
to its end. -/
theorem Sound.done (h : Sound fromEnd w) {r : Session κ} {b : Batch κ}
    (hdone : w.done = some (r, b)) :
    w.session = some r ∧ r.batch = some b ∧ w.Covered b.source b.upto ∧
      ∀ q i, ¬ Waits r q i := by
  simp only [World.done, bind_eq_some_iff, ite_none_right_eq_some,
    Option.some.injEq, Prod.mk.injEq] at hdone
  obtain ⟨r', hs, b', hb, hall, rfl, rfl⟩ := hdone
  have hwaits : ∀ q i, ¬ Waits r' q i := by
    rintro q i ⟨b, hb', -, hlo, hhi⟩
    obtain rfl : b' = b := Option.some.inj (hb.symm.trans hb')
    omega
  refine ⟨hs, hb, ?_, hwaits⟩
  intro i hafter hi
  exact (h.read r' hs b'.source b'.upto (h.hand r' b' hs hb) i hafter hi).resolve_right
    (hwaits _ _)

theorem covered_update {marks : κ → Option Nat} {p : κ} {c : Nat}
    (hmarks : ∀ q c', marks q = some c' → w.Covered q c') (hp : w.Covered p c) :
    ∀ q c', Function.update marks p (some c) q = some c' → w.Covered q c' := by
  intro q c' hq
  by_cases hqp : q = p
  · subst hqp
    simp only [Function.update_self, Option.some.injEq] at hq
    exact hq ▸ hp
  · rw [Function.update_of_ne hqp] at hq
    exact hmarks q c' hq

theorem Sound.commit (h : Sound fromEnd w) (hcommit : w.commit = some w') :
    Sound fromEnd w' := by
  simp only [World.commit, map_eq_some_iff, Prod.exists] at hcommit
  obtain ⟨r, b, hdone, rfl⟩ := hcommit
  obtain ⟨hs, -, hcovered, hwaits⟩ := h.done hdone
  simp only [World.drop, hs, map_some]
  constructor
  · exact covered_update h.saved hcovered
  · rintro _ ⟨⟩
    exact h.marks r hs
  · rintro _ ⟨⟩ q k hq i hafter hi
    exact .inl ((h.read r hs q k hq i hafter hi).resolve_right (hwaits q i))
  · rintro _ ⟨⟩
    exact h.unread r hs
  · rintro _ b ⟨⟩ ⟨⟩
  · intro _ hnone
    cases hnone

theorem Sound.save (h : Sound fromEnd w) {kept : Bool} (hsave : w.save kept = some w') :
    Sound fromEnd w' := by
  simp only [World.save, map_eq_some_iff, Prod.exists] at hsave
  obtain ⟨r, b, hdone, rfl⟩ := hsave
  obtain ⟨hs, -, hcovered, hwaits⟩ := h.done hdone
  have hmarks := covered_update (h.marks r hs) hcovered
  constructor
  · cases kept with
    | true => exact hmarks
    | false => exact h.saved
  · rintro _ ⟨⟩
    exact hmarks
  · rintro _ ⟨⟩ q k hq i hafter hi
    exact .inl ((h.read r hs q k hq i hafter hi).resolve_right (hwaits q i))
  · rintro _ ⟨⟩
    exact h.unread r hs
  · rintro _ b ⟨⟩ ⟨⟩
  · intro _ hnone
    cases hnone

omit [DecidableEq κ] in
/-- A session may be lost where the next one does not start at the end of a log
in which something waits for its emit. -/
theorem Sound.lose (h : Sound fromEnd w) (hlose : w.lose = some w')
    (hsaved : fromEnd = true → ∀ p, w.saved p = none → w.Covered p (w.log p).length) :
    Sound fromEnd w' := by
  simp only [World.lose, map_eq_some_iff] at hlose
  obtain ⟨_, -, rfl⟩ := hlose
  constructor
  · exact h.saved
  · rintro _ ⟨⟩
  · rintro _ ⟨⟩
  · rintro _ ⟨⟩
  · rintro _ _ ⟨⟩
  · exact fun hend _ => hsaved hend

end Steps

end World

end AgenticKibana.Library.Offsets
