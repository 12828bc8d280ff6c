import AgenticKibana.Library.Machine
import AgenticKibana.Library.Offsets

/-!
# The receivers that keep a position: Kafka and Kinesis

Kafka's broker keeps the position of the consumer group; a partition without one is read from
where `auto_offset_reset` says.  Kinesis saves the last sequence number of each shard in its own
cursor, and opens a shard that has none with the configured iterator type; a failed load is a cold
start, a failed save is passed over.  A failing emit, a failing broker call and a crash all end
the session, and the supervisor starts the receiver again.

Each payload goes to `_emit_payload`, which parses it (the parsers are a parameter) and calls
`emit` with the events, unless there are none.
-/

namespace AgenticKibana.Receivers

open Option

/-! ### Messages -/

inductive Content where
  | text (s : String)
  | bytes (b : List UInt8)
deriving DecidableEq

structure KafkaMessage where
  value : Option Content

structure SqsMessage where
  body : Option String

structure KinesisRecord where
  data : Option (List UInt8)

structure StreamEntry where
  fields : List (Content × Content)

def SqsMessage.payload (m : SqsMessage) : Content := .text (m.body.getD "")

def KinesisRecord.payload (r : KinesisRecord) : Content := .bytes (r.data.getD [])

/-- `_pick_field`: the named field, or the whole entry in one text. -/
def pickField (dumps : List (Content × Content) → String) (fields : List (Content × Content))
    (field : String) : Content :=
  match fields.lookup (.text field) with
  | some v => v
  | none =>
    match fields.lookup (.bytes field.toUTF8.toList) with
    | some v => v
    | none => .text (dumps fields)

section Emit
variable {ρ : Type} (parse : Content → List ρ)

/-- `_emit_payload`: what is given to `emit`, if anything is. -/
def emitPayload (payload : Content) : Option (List ρ) :=
  let events := parse payload
  if events.isEmpty then none else some events

def KafkaMessage.carries (m : KafkaMessage) : Bool :=
  m.value.any fun v => (emitPayload parse v).isSome

def SqsMessage.carries (m : SqsMessage) : Bool := (emitPayload parse m.payload).isSome

def KinesisRecord.carries (r : KinesisRecord) : Bool := (emitPayload parse r.payload).isSome

def StreamEntry.carries (dumps : List (Content × Content) → String) (field : String)
    (e : StreamEntry) : Bool :=
  (emitPayload parse (pickField dumps e.fields field)).isSome

end Emit

open Library (Machine)
open Library.Offsets

variable {κ ρ : Type} [DecidableEq κ]

/-! ### Kafka -/

namespace Kafka

/-- The values of `auto_offset_reset`. -/
inductive OffsetReset where
  | latest
  | earliest
deriving DecidableEq

structure Config where
  autoOffsetReset : Option OffsetReset

def Config.fromEnd (c : Config) : Bool := c.autoOffsetReset.getD .latest == .latest

inductive Move (κ : Type) where
  | publish (p : κ) (m : KafkaMessage)
  | start
  | poll (p : κ)
  | emit
  | commit
  | fail

def front (w : World κ KafkaMessage) (p : κ) : Option KafkaMessage :=
  (w.session.bind fun r => r.positions p).bind fun k => (w.log p)[k]?

/-- One step of `KafkaReceiver.start` or of what surrounds it.  A message without
a value is left behind at once, without an emit and without a commit. -/
def step (c : Config) (parse : Content → List ρ) (w : World κ KafkaMessage) :
    Move κ → Option (World κ KafkaMessage)
  | .publish p m => some (w.publish p m)
  | .start => w.begin c.fromEnd w.saved fun _ => true
  | .poll p =>
    (w.take p 1).map fun w' =>
      if (front w p).any fun m => m.value.isSome then w' else w'.drop
  | .emit => w.emitNext (KafkaMessage.carries parse)
  | .commit => w.commit
  | .fail => w.lose

def receiver (c : Config) (parse : Content → List ρ) : Machine (World κ KafkaMessage) (Move κ) where
  start w := w.session = none ∧ w.since = none
  step := step c parse

/-- When a step keeps the guarantee: what is taken has events in it, and where the offset reset is
the end of the log, a session is lost or a message published without one only when that partition
has a committed offset, or nothing left to emit. -/
def Keeps (c : Config) (parse : Content → List ρ) (w : World κ KafkaMessage) : Move κ → Prop
  | .publish p _ =>
    c.fromEnd = true → w.session = none → w.since ≠ none → w.saved p ≠ none
  | .poll p => ∀ m, front w p = some m → m.value ≠ none
  | .emit => ∀ p i m, w.inHand = some (p, i, m) → KafkaMessage.carries parse m = true
  | .fail => c.fromEnd = true → ∀ p, w.saved p = none → w.Covered p (w.log p).length
  | .start | .commit => True

/-- The consumer is assigned every partition of its topic. -/
def ReadsAll (w : World κ KafkaMessage) : Prop :=
  ∀ r, w.session = some r → ∀ p, r.positions p ≠ none

variable {w w' : World κ KafkaMessage} {c : Config} {parse : Content → List ρ}

omit [DecidableEq κ] in
theorem readsAll_of_positions (h : ReadsAll w)
    (hkeep : ∀ r', w'.session = some r' → ∃ r, w.session = some r ∧ r.positions = r'.positions) :
    ReadsAll w' := by
  intro r' hr' p
  obtain ⟨r, hr, hpos⟩ := hkeep r' hr'
  exact hpos ▸ h r hr p

omit [DecidableEq κ] in
theorem readsAll_drop (h : ReadsAll w) : ReadsAll w.drop := by
  apply readsAll_of_positions h
  intro r' hr'
  simp only [World.drop, map_eq_some_iff] at hr'
  obtain ⟨r, hr, rfl⟩ := hr'
  exact ⟨r, hr, rfl⟩

variable {p : κ}

theorem readsAll_take {n : Nat} (h : ReadsAll w) (htake : w.take p n = some w') : ReadsAll w' := by
  unfold World.take at htake
  split at htake
  · cases htake
  rename_i r hr
  split at htake
  · rw [ite_none_right_eq_some, Option.some.injEq] at htake
    obtain ⟨-, rfl⟩ := htake
    rintro _ ⟨⟩ q
    by_cases hqp : q = p
    · subst hqp
      simp
    · simpa [Function.update_of_ne hqp] using h r hr q
  · cases htake

theorem front_of_take (htake : w.take p 1 = some w') : ∃ m, front w p = some m := by
  unfold World.take at htake
  split at htake
  · cases htake
  rename_i r hr
  split at htake
  · rename_i k _ hk
    rw [ite_none_right_eq_some] at htake
    have hlt : k < (w.log p).length := by omega
    exact ⟨_, by simp [front, hr, hk, hlt]; rfl⟩
  · cases htake

variable {e : Move κ}

theorem readsAll_step (h : ReadsAll w) (hstep : step c parse w e = some w') : ReadsAll w' := by
  cases e with
  | publish p m =>
    cases hstep
    exact h
  | start =>
    simp only [step, World.begin] at hstep
    split at hstep
    · cases hstep
    · cases hstep
      rintro _ ⟨⟩ p
      simp
  | poll p =>
    simp only [step, map_eq_some_iff] at hstep
    obtain ⟨w1, htake, rfl⟩ := hstep
    have h1 := readsAll_take h htake
    split
    · exact h1
    · exact readsAll_drop h1
  | emit =>
    simp only [step, World.emitNext] at hstep
    split at hstep
    · rename_i r p i m hr _
      cases hstep
      apply readsAll_of_positions h
      rintro _ ⟨⟩
      exact ⟨r, hr, rfl⟩
    · cases hstep
  | commit =>
    simp only [step, World.commit, map_eq_some_iff] at hstep
    obtain ⟨_, _, rfl⟩ := hstep
    exact readsAll_drop h
  | fail =>
    simp only [step, World.lose, map_eq_some_iff] at hstep
    obtain ⟨_, _, rfl⟩ := hstep
    rintro _ ⟨⟩

theorem sound_step (h : w.Sound c.fromEnd) (hall : ReadsAll w) (hkeeps : Keeps c parse w e)
    (hstep : step c parse w e = some w') : w'.Sound c.fromEnd := by
  cases e with
  | publish p m =>
    cases hstep
    exact h.publish m (fun r hr => hall r hr p) hkeeps
  | start =>
    refine h.begin hstep (fun _ _ hp => hp) (fun _ _ _ hp => hp) ?_ (fun _ hp => nomatch hp)
    exact fun hend => h.stopped hend (World.session_of_begin hstep)
  | poll p =>
    simp only [step, map_eq_some_iff] at hstep
    obtain ⟨w1, htake, rfl⟩ := hstep
    obtain ⟨m, hm⟩ := front_of_take htake
    have hvalue : m.value.isSome = true := isSome_iff_ne_none.mpr (hkeeps m hm)
    simp only [hm, any_some, hvalue, if_true]
    exact h.take htake
  | emit => exact h.emitNext hstep hkeeps
  | commit => exact h.commit hstep
  | fail => exact h.lose hstep hkeeps

/-- **Kafka**: in every run whose steps keep the guarantee, it holds. -/
theorem atLeastOnce_of_reaches (h : (receiver c parse).Reaches (Keeps c parse) w) :
    w.AtLeastOnce c.fromEnd := by
  have hboth : w.Sound c.fromEnd ∧ ReadsAll w := by
    refine Machine.invariant (I := fun w => w.Sound c.fromEnd ∧ ReadsAll w) ?_ ?_ h
    · rintro w ⟨hsession, hsince⟩
      exact ⟨.fresh hsession hsince, by simp [ReadsAll, hsession]⟩
    · rintro w e w' ⟨hsound, hall⟩ hkeeps hstep
      exact ⟨sound_step hsound hall hkeeps hstep, readsAll_step hall hstep⟩
  exact hboth.1.atLeastOnce

end Kafka

/-! ### Kinesis -/

namespace Kinesis

/-- The values of `iterator_type`. -/
inductive IteratorType where
  | latest
  | trimHorizon
deriving DecidableEq

structure Config where
  iteratorType : Option IteratorType

/-- Where a shard without a saved sequence number is read from. -/
def Config.fromEnd (c : Config) : Bool := c.iteratorType.getD .latest == .latest

inductive Move (κ : Type) where
  | publish (sid : κ) (r : KinesisRecord)
  | start (loaded : Bool) (shards : List κ)
  | getRecords (sid : κ) (n : Nat)
  | emit
  | saveCursor (kept : Bool)
  | fail

/-- The `Limit` of one `get_records`. -/
def limit : Nat := 100

/-- The shard markers a start works with: those of the cursor, or none where
loading it failed. -/
def loadCursor (w : World κ KinesisRecord) (loaded : Bool) : κ → Option Nat :=
  if loaded then w.saved else fun _ => none

/-- One step of `AwsKinesisReceiver.start` or of what surrounds it.  The shards
are those that `describe_stream` answered at the start. -/
def step (c : Config) (parse : Content → List ρ) (w : World κ KinesisRecord) :
    Move κ → Option (World κ KinesisRecord)
  | .publish sid r => some (w.publish sid r)
  | .start loaded shards => w.begin c.fromEnd (loadCursor w loaded) fun sid => decide (sid ∈ shards)
  | .getRecords sid n => if n ≤ limit then w.take sid n else none
  | .emit => w.emitNext (KinesisRecord.carries parse)
  | .saveCursor kept => w.save kept
  | .fail => w.lose

def receiver (c : Config) (parse : Content → List ρ) :
    Machine (World κ KinesisRecord) (Move κ) where
  start w := w.session = none ∧ w.since = none ∧ ∀ sid, w.saved sid = none
  step := step c parse

/-- When a step keeps the guarantee: what is emitted has events in it, every
shard with something left to emit is listed at a start and no record comes to a
shard the session does not read, and where the iterator type is the latest, a
load fails only when nothing is left to emit, and a session is lost or a record
comes without a session only when that shard has a saved marker, or has nothing
left to emit. -/
def Keeps (c : Config) (parse : Content → List ρ) (w : World κ KinesisRecord) : Move κ → Prop
  | .publish sid _ =>
    (∀ r, w.session = some r → r.positions sid ≠ none) ∧
    (c.fromEnd = true → w.session = none → w.since ≠ none → w.saved sid ≠ none)
  | .start loaded shards =>
    (c.fromEnd = true → loaded = false → ∀ sid, w.Covered sid (w.log sid).length) ∧
    ∀ sid, sid ∉ shards → ∀ i,
      w.since.getD (resume c.fromEnd w.log (loadCursor w loaded)) sid ≤ i →
        i < (w.log sid).length → (sid, i) ∈ w.emitted
  | .emit => ∀ sid i r, w.inHand = some (sid, i, r) → KinesisRecord.carries parse r = true
  | .fail => c.fromEnd = true → ∀ sid, w.saved sid = none → w.Covered sid (w.log sid).length
  | .getRecords _ _ | .saveCursor _ => True

def Untouched (w : World κ KinesisRecord) : Prop :=
  w.since = none → w.session = none ∧ ∀ sid, w.saved sid = none

variable {c : Config} {parse : Content → List ρ} {w w' : World κ KinesisRecord} {e : Move κ}

theorem untouched_step (h : Untouched w) (hstep : step c parse w e = some w') : Untouched w' := by
  -- Every move but a publication and a start needs a session, so the first start is past.
  have hsince : ∀ r, w.session = some r → w.since ≠ none := by
    intro r hr hnone
    simp [(h hnone).1] at hr
  cases e with
  | publish sid r =>
    cases hstep
    exact h
  | start loaded shards =>
    simp only [step, World.begin] at hstep
    split at hstep
    · cases hstep
    · cases hstep
      rintro ⟨⟩
  | getRecords sid n =>
    simp only [step, ite_none_right_eq_some, World.take] at hstep
    obtain ⟨-, hstep⟩ := hstep
    split at hstep
    · cases hstep
    rename_i r hr
    split at hstep
    · rw [ite_none_right_eq_some, Option.some.injEq] at hstep
      obtain ⟨-, rfl⟩ := hstep
      exact fun hnone => absurd hnone (hsince r hr)
    · cases hstep
  | emit =>
    simp only [step, World.emitNext] at hstep
    split at hstep
    · rename_i r _ _ _ hr _
      cases hstep
      exact fun hnone => absurd hnone (hsince r hr)
    · cases hstep
  | saveCursor kept =>
    simp only [step, World.save, World.done, map_eq_some_iff,
      bind_eq_some_iff] at hstep
    obtain ⟨_, ⟨r, hr, _⟩, rfl⟩ := hstep
    exact fun hnone => absurd hnone (hsince r hr)
  | fail =>
    simp only [step, World.lose, map_eq_some_iff] at hstep
    obtain ⟨r, hr, rfl⟩ := hstep
    exact fun hnone => absurd hnone (hsince r hr)

theorem sound_step (h : w.Sound c.fromEnd) (huntouched : Untouched w) (hkeeps : Keeps c parse w e)
    (hstep : step c parse w e = some w') : w'.Sound c.fromEnd := by
  cases e with
  | publish sid r =>
    cases hstep
    exact h.publish r hkeeps.1 hkeeps.2
  | start loaded shards =>
    have hmarks : ∀ sid c, loadCursor w loaded sid = some c → w.saved sid = some c := by
      intro sid c
      cases loaded with
      | true => exact id
      | false => simp [loadCursor]
    refine h.begin hstep hmarks ?_ ?_ ?_
    · intro hsince sid c hsaved
      simp [(huntouched hsince).2 sid] at hsaved
    · intro hend sid hsid
      cases loaded with
      | true => exact h.stopped hend (World.session_of_begin hstep) sid hsid
      | false => exact hkeeps.1 hend rfl sid
    · intro sid hsid
      exact hkeeps.2 sid (of_decide_eq_false hsid)
  | getRecords sid n =>
    simp only [step, ite_none_right_eq_some] at hstep
    exact h.take hstep.2
  | emit => exact h.emitNext hstep hkeeps
  | saveCursor kept => exact h.save hstep
  | fail => exact h.lose hstep hkeeps

/-- **Kinesis**: in every run whose steps keep the guarantee, it holds. -/
theorem atLeastOnce_of_reaches (h : (receiver c parse).Reaches (Keeps c parse) w) :
    w.AtLeastOnce c.fromEnd := by
  have hboth : w.Sound c.fromEnd ∧ Untouched w := by
    refine Machine.invariant (I := fun w => w.Sound c.fromEnd ∧ Untouched w) ?_ ?_ h
    · rintro w ⟨hsession, hsince, hsaved⟩
      exact ⟨.fresh hsession hsince, fun _ => ⟨hsession, hsaved⟩⟩
    · rintro w e w' ⟨hsound, huntouched⟩ hkeeps hstep
      exact ⟨sound_step hsound huntouched hkeeps hstep, untouched_step huntouched hstep⟩
  exact hboth.1.atLeastOnce

end Kinesis

end AgenticKibana.Receivers
