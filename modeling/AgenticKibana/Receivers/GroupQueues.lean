import AgenticKibana.Receivers.OffsetQueues

/-!
# The receivers that take messages from a queue: SQS and Redis Streams

Both are handed a batch of messages, emit them one by one and remove each after its emit.  SQS
hides a message that was handed out for a while and then hands it out again.  A Redis consumer
group keeps it in the pending list of its consumer, and a read of the entries `>` answers only
entries that were never handed out.

SQS always delivers at least once.  Kafka and Kinesis lose what arrived before their first durable
position, Redis Streams what it was handed before.
-/

namespace AgenticKibana.Receivers

open Option
open Library (Machine)

/-- A session: what is left of the batch, and whether its first message was
emitted and is about to be removed. -/
structure Delivery where
  batch : List Nat
  sent : Bool
deriving DecidableEq

def Delivery.waiting (d : Delivery) : List Nat := if d.sent then d.batch.tail else d.batch

/-- A queue and its reader: every message ever sent, by number, those that were
removed, the first one a consumer group was never handed, and, as an observation,
those that were part of an emit that succeeded. -/
structure Queue (μ : Type) where
  log : List μ
  removed : List Nat
  last : Nat
  session : Option Delivery
  emitted : List Nat

namespace Queue

variable {μ : Type}

def send (q : Queue μ) (m : μ) : Queue μ := { q with log := q.log ++ [m] }

def begin (q : Queue μ) : Option (Queue μ) :=
  match q.session with
  | some _ => none
  | none => some { q with session := some ⟨[], false⟩ }

def inHand (q : Queue μ) : Option (Nat × μ) :=
  match q.session with
  | some ⟨i :: _, false⟩ => q.log[i]?.map fun m => (i, m)
  | _ => none

/-- The emit of the next message succeeds; one that carries nothing is passed
over. -/
def emitNext (carries : μ → Bool) (q : Queue μ) : Option (Queue μ) :=
  match q.session, q.inHand with
  | some d, some (i, m) => some
      { q with
        session := some { d with sent := true }
        emitted := if carries m then i :: q.emitted else q.emitted }
  | _, _ => none

def remove (q : Queue μ) : Option (Queue μ) :=
  match q.session with
  | some ⟨i :: rest, true⟩ => some
      { q with session := some ⟨rest, false⟩, removed := i :: q.removed }
  | _ => none

def lose (q : Queue μ) : Option (Queue μ) := q.session.map fun _ => { q with session := none }

def Untouched (q : Queue μ) : Prop :=
  q.removed = [] ∧ q.last = 0 ∧ q.session = none ∧ q.emitted = []

/-- **At least once**: every message was emitted or is still due, and no removal
covers a message that was not emitted. -/
structure AtLeastOnce (Due : Queue μ → Nat → Prop) (q : Queue μ) : Prop where
  delivered : ∀ i, i < q.log.length → i ∈ q.emitted ∨ Due q i
  covered : ∀ i ∈ q.removed, i ∈ q.emitted

/-! ### What both receivers keep -/

structure Sound (q : Queue μ) : Prop where
  removed : ∀ i ∈ q.removed, i ∈ q.emitted
  sent : ∀ i rest, q.session = some ⟨i :: rest, true⟩ → i ∈ q.emitted

variable {q q' : Queue μ}

theorem Untouched.sound (h : q.Untouched) : q.Sound := by
  obtain ⟨hremoved, -, hsession, -⟩ := h
  exact ⟨by simp [hremoved], by simp [hsession]⟩

theorem Sound.send (h : q.Sound) (m : μ) : (q.send m).Sound := ⟨h.removed, h.sent⟩

theorem Sound.begin (h : q.Sound) (hbegin : q.begin = some q') : q'.Sound := by
  unfold Queue.begin at hbegin
  split at hbegin
  · cases hbegin
  · cases hbegin
    exact ⟨h.removed, by rintro i rest ⟨⟩⟩

theorem session_of_inHand {i : Nat} {m : μ} (h : q.inHand = some (i, m)) :
    ∃ rest, q.session = some ⟨i :: rest, false⟩ := by
  unfold inHand at h
  split at h
  · rename_i j rest hs
    simp only [map_eq_some_iff, Prod.mk.injEq] at h
    obtain ⟨_, -, rfl, -⟩ := h
    exact ⟨rest, hs⟩
  · cases h

variable {carries : μ → Bool}

/-- An emit of a message that carries something emits the first message of the
batch. -/
theorem emitNext_eq (hemit : q.emitNext carries = some q')
    (hcarries : ∀ i m, q.inHand = some (i, m) → carries m = true) :
    ∃ i rest, q.session = some ⟨i :: rest, false⟩ ∧
      q' = { q with session := some ⟨i :: rest, true⟩, emitted := i :: q.emitted } := by
  unfold emitNext at hemit
  split at hemit
  · rename_i d i m hd hin
    obtain ⟨rest, hs⟩ := session_of_inHand hin
    obtain rfl : d = ⟨i :: rest, false⟩ := Option.some.inj (hd.symm.trans hs)
    simp only [hcarries i m hin, if_true, Option.some.injEq] at hemit
    exact ⟨i, rest, hs, hemit.symm⟩
  · cases hemit

theorem Sound.emitNext (h : q.Sound) (hemit : q.emitNext carries = some q')
    (hcarries : ∀ i m, q.inHand = some (i, m) → carries m = true) : q'.Sound := by
  obtain ⟨i, rest, -, rfl⟩ := emitNext_eq hemit hcarries
  constructor
  · exact fun j hj => List.mem_cons_of_mem _ (h.removed j hj)
  · rintro j rest' ⟨⟩
    exact List.mem_cons_self ..

theorem remove_eq (hremove : q.remove = some q') :
    ∃ i rest, q.session = some ⟨i :: rest, true⟩ ∧
      q' = { q with session := some ⟨rest, false⟩, removed := i :: q.removed } := by
  unfold remove at hremove
  split at hremove
  · rename_i i rest hs
    cases hremove
    exact ⟨i, rest, hs, rfl⟩
  · cases hremove

theorem Sound.remove (h : q.Sound) (hremove : q.remove = some q') : q'.Sound := by
  obtain ⟨i, rest, hs, rfl⟩ := remove_eq hremove
  constructor
  · intro j hj
    rcases List.mem_cons.mp hj with rfl | hj
    · exact h.sent j rest hs
    · exact h.removed j hj
  · rintro j rest' ⟨⟩

theorem Sound.lose (h : q.Sound) (hlose : q.lose = some q') : q'.Sound := by
  simp only [Queue.lose, map_eq_some_iff] at hlose
  obtain ⟨_, -, rfl⟩ := hlose
  exact ⟨h.removed, by rintro i rest ⟨⟩⟩

theorem Sound.hand (h : q.Sound) (batch : List Nat) (last : Nat) :
    Sound { q with session := some ⟨batch, false⟩, last } :=
  ⟨h.removed, by rintro i rest ⟨⟩⟩

end Queue

/-! ### SQS -/

namespace Sqs

variable {ρ : Type}

structure Config where
  maxMessages : Option Nat

/-- `int(config.get("max_messages", 10) or 10)`. -/
def Config.batch (c : Config) : Nat :=
  match c.maxMessages with
  | some (n + 1) => n + 1
  | _ => 10

inductive Move where
  | send (m : SqsMessage)
  | start
  | receive (batch : List Nat)
  | emit
  | delete
  | fail

/-- One step of `AwsSqsReceiver.start` or of what surrounds it.  A receive may
answer any messages that are not deleted, in any order: when a message that was
handed out shows up again is the broker's choice. -/
def step (c : Config) (parse : Content → List ρ) (q : Queue SqsMessage) :
    Move → Option (Queue SqsMessage)
  | .send m => some (q.send m)
  | .start => q.begin
  | .receive batch =>
    if q.session = some ⟨[], false⟩ ∧ batch.length ≤ c.batch ∧
        ∀ i ∈ batch, i < q.log.length ∧ i ∉ q.removed then
      some { q with session := some ⟨batch, false⟩ }
    else none
  | .emit => q.emitNext (SqsMessage.carries parse)
  | .delete => q.remove
  | .fail => q.lose

def receiver (c : Config) (parse : Content → List ρ) : Machine (Queue SqsMessage) Move where
  start := Queue.Untouched
  step := step c parse

def Due (q : Queue SqsMessage) (i : Nat) : Prop := i ∉ q.removed

def Keeps (parse : Content → List ρ) (q : Queue SqsMessage) : Move → Prop
  | .emit => ∀ i m, q.inHand = some (i, m) → SqsMessage.carries parse m = true
  | _ => True

variable {c : Config} {parse : Content → List ρ} {q : Queue SqsMessage}

theorem sound_step {q' : Queue SqsMessage} {e : Move} (h : q.Sound) (hkeeps : Keeps parse q e)
    (hstep : step c parse q e = some q') : q'.Sound := by
  cases e with
  | send m =>
    cases hstep
    exact h.send m
  | start => exact h.begin hstep
  | receive batch =>
    simp only [step, ite_none_right_eq_some, Option.some.injEq] at hstep
    obtain ⟨-, rfl⟩ := hstep
    exact h.hand batch q.last
  | emit => exact h.emitNext hstep hkeeps
  | delete => exact h.remove hstep
  | fail => exact h.lose hstep

/-- **SQS**: in every run whose steps keep the guarantee, it holds. -/
theorem atLeastOnce_of_reaches (h : (receiver c parse).Reaches (Keeps parse) q) :
    q.AtLeastOnce Due := by
  have hsound : q.Sound := by
    refine Machine.invariant (I := Queue.Sound) ?_ ?_ h
    · exact fun q hq => hq.sound
    · exact fun q e q' hq hkeeps hstep => sound_step hq hkeeps hstep
  refine ⟨?_, hsound.removed⟩
  intro i _
  by_cases hi : i ∈ q.removed
  · exact .inl (hsound.removed i hi)
  · exact .inr hi

end Sqs

/-! ### Redis Streams -/

namespace RedisStreams

variable {ρ : Type}

structure Config where
  field : Option String

def Config.messageField (c : Config) : String := c.field.getD "message"

inductive Move where
  | add (e : StreamEntry)
  | start
  | readGroup (n : Nat)
  | emit
  | ack
  | fail

/-- The `count` of one `XREADGROUP`. -/
def count : Nat := 10

/-- One step of `RedisStreamsReceiver.start` or of what surrounds it.  The group
is created at the first entry of the stream, and a read of `>` answers the next
entries that were never handed to the group. -/
def step (c : Config) (dumps : List (Content × Content) → String) (parse : Content → List ρ)
    (q : Queue StreamEntry) : Move → Option (Queue StreamEntry)
  | .add e => some (q.send e)
  | .start => q.begin
  | .readGroup n =>
    if q.session = some ⟨[], false⟩ ∧ n ≤ count ∧ q.last + n ≤ q.log.length then
      some { q with session := some ⟨List.range' q.last n, false⟩, last := q.last + n }
    else none
  | .emit => q.emitNext (StreamEntry.carries parse dumps c.messageField)
  | .ack => q.remove
  | .fail => q.lose

def receiver (c : Config) (dumps : List (Content × Content) → String)
    (parse : Content → List ρ) : Machine (Queue StreamEntry) Move where
  start := Queue.Untouched
  step := step c dumps parse

/-- An entry is handed to the group once: it is due until then, and while the
session that was handed it has it in hand. -/
def Due (q : Queue StreamEntry) (i : Nat) : Prop :=
  q.last ≤ i ∨ ∃ d, q.session = some d ∧ i ∈ d.waiting

/-- When a step keeps the guarantee: what is emitted has events in it, and a
session is lost only when no entry of its batch waits for its emit. -/
def Keeps (c : Config) (dumps : List (Content × Content) → String) (parse : Content → List ρ)
    (q : Queue StreamEntry) : Move → Prop
  | .emit => ∀ i e, q.inHand = some (i, e) →
      StreamEntry.carries parse dumps c.messageField e = true
  | .fail => ∀ d, q.session = some d → d.waiting = []
  | _ => True

def Handed (q : Queue StreamEntry) : Prop := ∀ i, i ∈ q.emitted ∨ Due q i

variable {c : Config} {dumps : List (Content × Content) → String} {parse : Content → List ρ}
  {q q' : Queue StreamEntry} {e : Move}

theorem sound_step (h : q.Sound) (hkeeps : Keeps c dumps parse q e)
    (hstep : step c dumps parse q e = some q') : q'.Sound := by
  cases e with
  | add e =>
    cases hstep
    exact h.send e
  | start => exact h.begin hstep
  | readGroup n =>
    simp only [step, ite_none_right_eq_some, Option.some.injEq] at hstep
    obtain ⟨-, rfl⟩ := hstep
    exact h.hand _ _
  | emit => exact h.emitNext hstep hkeeps
  | ack => exact h.remove hstep
  | fail => exact h.lose hstep

theorem handed_step (h : Handed q) (hkeeps : Keeps c dumps parse q e)
    (hstep : step c dumps parse q e = some q') : Handed q' := by
  intro i
  cases e with
  | add e =>
    cases hstep
    exact h i
  | start =>
    simp only [step, Queue.begin] at hstep
    split at hstep
    · cases hstep
    rename_i hnone
    cases hstep
    refine (h i).imp_right ?_
    rintro (hlast | ⟨d, hd, _⟩)
    · exact .inl hlast
    · cases hnone.symm.trans hd
  | readGroup n =>
    simp only [step, ite_none_right_eq_some, Option.some.injEq] at hstep
    obtain ⟨⟨hempty, -, -⟩, rfl⟩ := hstep
    refine (h i).imp_right ?_
    rintro (hlast | ⟨d, hd, hi⟩)
    · by_cases hin : q.last + n ≤ i
      · exact .inl hin
      · refine .inr ⟨_, rfl, ?_⟩
        simp only [Delivery.waiting, Bool.false_eq_true, if_false, List.mem_range'_1]
        omega
    · obtain rfl : d = ⟨[], false⟩ := Option.some.inj (hd.symm.trans hempty)
      simp [Delivery.waiting] at hi
  | emit =>
    obtain ⟨j, rest, hs, rfl⟩ := Queue.emitNext_eq hstep hkeeps
    rcases h i with hemitted | hlast | ⟨d, hd, hi⟩
    · exact .inl (List.mem_cons_of_mem _ hemitted)
    · exact .inr (.inl hlast)
    · obtain rfl : d = ⟨j :: rest, false⟩ := Option.some.inj (hd.symm.trans hs)
      simp only [Delivery.waiting, Bool.false_eq_true, if_false, List.mem_cons] at hi
      rcases hi with rfl | hi
      · exact .inl (List.mem_cons_self ..)
      · exact .inr (.inr ⟨_, rfl, by simpa [Delivery.waiting] using hi⟩)
  | ack =>
    obtain ⟨j, rest, hs, rfl⟩ := Queue.remove_eq hstep
    refine (h i).imp_right ?_
    rintro (hlast | ⟨d, hd, hi⟩)
    · exact .inl hlast
    · obtain rfl : d = ⟨j :: rest, true⟩ := Option.some.inj (hd.symm.trans hs)
      exact .inr ⟨_, rfl, by simpa [Delivery.waiting] using hi⟩
  | fail =>
    simp only [step, Queue.lose, map_eq_some_iff] at hstep
    obtain ⟨d', hd', rfl⟩ := hstep
    refine (h i).imp_right ?_
    rintro (hlast | ⟨d, hd, hi⟩)
    · exact .inl hlast
    · rw [hkeeps d hd] at hi
      cases hi

/-- **Redis Streams**: in every run whose steps keep the guarantee, it holds. -/
theorem atLeastOnce_of_reaches (h : (receiver c dumps parse).Reaches (Keeps c dumps parse) q) :
    q.AtLeastOnce Due := by
  have hboth : q.Sound ∧ Handed q := by
    refine Machine.invariant (I := fun q => q.Sound ∧ Handed q) ?_ ?_ h
    · intro q hq
      refine ⟨hq.sound, fun i => .inr (.inl ?_)⟩
      simp [hq.2.1]
    · rintro q e q' ⟨hsound, hhanded⟩ hkeeps hstep
      exact ⟨sound_step hsound hkeeps hstep, handed_step hhanded hkeeps hstep⟩
  exact ⟨fun i _ => hboth.2 i, hboth.1.removed⟩

end RedisStreams

/-! ### Which runs deliver at least once -/

open Library.Offsets

/-- **At least once.**  In every run whose steps keep the guarantee, each of the
four receivers has emitted every message from its first start on or is still to
be delivered it, and has moved no durable position and removed no message ahead
of the emit. -/
theorem at_least_once_of_keeps {κ ρ : Type} [DecidableEq κ]
    (dumps : List (Content × Content) → String) (parse : Content → List ρ) :
    (∀ (c : Kafka.Config) (w : World κ KafkaMessage),
      (Kafka.receiver c parse).Reaches (Kafka.Keeps c parse) w → w.AtLeastOnce c.fromEnd) ∧
    (∀ (c : Sqs.Config) (q : Queue SqsMessage),
      (Sqs.receiver c parse).Reaches (Sqs.Keeps parse) q → q.AtLeastOnce Sqs.Due) ∧
    (∀ (c : Kinesis.Config) (w : World κ KinesisRecord),
      (Kinesis.receiver c parse).Reaches (Kinesis.Keeps c parse) w → w.AtLeastOnce c.fromEnd) ∧
    (∀ (c : RedisStreams.Config) (q : Queue StreamEntry),
      (RedisStreams.receiver c dumps parse).Reaches (RedisStreams.Keeps c dumps parse) q →
        q.AtLeastOnce RedisStreams.Due) :=
  ⟨fun _ _ => Kafka.atLeastOnce_of_reaches, fun _ _ => Sqs.atLeastOnce_of_reaches,
    fun _ _ => Kinesis.atLeastOnce_of_reaches, fun _ _ => RedisStreams.atLeastOnce_of_reaches⟩

/-! ### Runs -/

def oneEvent (p : Content) : List Content := [p]

/-- The whole of an entry, for entries that have the field. -/
def noDump (_ : List (Content × Content)) : String := ""

def kafkaMessage : KafkaMessage := ⟨some (.text "a")⟩
def kinesisRecord : KinesisRecord := ⟨some [97]⟩
def sqsMessage : SqsMessage := ⟨some "a"⟩
def streamEntry : StreamEntry := ⟨[(.text "message", .text "a")]⟩

/-- Kafka at its defaults, with one partition: the first message is committed,
the emit of the second fails, and the next start reads it again. -/
def kafkaRun : List (Kafka.Move Unit) :=
  [.start, .publish () kafkaMessage, .poll (), .emit, .commit, .publish () kafkaMessage, .poll (),
    .fail, .start, .poll (), .emit, .commit]

def kinesisRun : List (Kinesis.Move Unit) :=
  [.start true [()], .publish () kinesisRecord, .getRecords () 1, .emit, .saveCursor true,
    .publish () kinesisRecord, .getRecords () 1, .fail, .start true [()], .getRecords () 1,
    .emit, .saveCursor true]

def sqsRun : List Sqs.Move :=
  [.send sqsMessage, .start, .receive [0], .fail, .start, .receive [0], .emit, .delete]

def redisRun : List RedisStreams.Move :=
  [.add streamEntry, .start, .readGroup 1, .emit, .ack, .fail, .add streamEntry, .start,
    .readGroup 1, .emit, .ack]

def emptyWorld (μ : Type) : World Unit μ := ⟨fun _ => [], fun _ => none, none, [], none⟩

def emptyQueue (μ : Type) : Queue μ := ⟨[], [], 0, none, []⟩

def kafkaKept (w : World Unit KafkaMessage) : Kafka.Move Unit → Bool
  | .publish p _ => w.session.isSome || (w.saved p).isSome
  | .poll p => (Kafka.front w p).all fun m => m.value.isSome
  | .emit => w.inHand.all fun (_, _, m) => m.carries oneEvent
  | .fail => (w.saved ()).isSome
  | .start | .commit => true

theorem kafkaKept_keeps (w : World Unit KafkaMessage) (e : Kafka.Move Unit)
    (h : kafkaKept w e = true) : Kafka.Keeps ⟨none⟩ oneEvent w e := by
  cases e with
  | publish p m =>
    intro _ hsession _ hsaved
    simp [kafkaKept, hsession, hsaved] at h
  | poll p =>
    intro m hm hvalue
    simp [kafkaKept, hm, hvalue] at h
  | emit =>
    intro p i m hm
    simpa [kafkaKept, hm] using h
  | fail =>
    rintro _ ⟨⟩ hsaved
    simp [kafkaKept, hsaved] at h
  | start | commit => trivial

def kinesisKept (w : World Unit KinesisRecord) : Kinesis.Move Unit → Bool
  | .publish sid _ => w.session.any fun r => (r.positions sid).isSome
  | .start loaded shards => loaded && shards.contains ()
  | .emit => w.inHand.all fun (_, _, r) => r.carries oneEvent
  | .fail => (w.saved ()).isSome
  | .getRecords _ _ | .saveCursor _ => true

theorem kinesisKept_keeps (w : World Unit KinesisRecord) (e : Kinesis.Move Unit)
    (h : kinesisKept w e = true) : Kinesis.Keeps ⟨none⟩ oneEvent w e := by
  cases e with
  | publish sid r =>
    obtain ⟨s, hs, hsid⟩ := (Option.any_eq_true _ _).mp h
    refine ⟨?_, ?_⟩
    · rintro _ hr hnone
      cases hs.symm.trans hr
      simp [hnone] at hsid
    · intro _ hnone
      simp [hnone] at hs
  | start loaded shards =>
    simp only [kinesisKept, Bool.and_eq_true, List.contains_iff_mem] at h
    refine ⟨fun _ hloaded => ?_, fun sid hsid => absurd h.2 hsid⟩
    simp [hloaded] at h
  | emit =>
    intro p i r hr
    simpa [kinesisKept, hr] using h
  | fail =>
    rintro _ ⟨⟩ hsaved
    simp [kinesisKept, hsaved] at h
  | getRecords sid n | saveCursor kept => trivial

def sqsKept (q : Queue SqsMessage) : Sqs.Move → Bool
  | .emit => q.inHand.all fun (_, m) => m.carries oneEvent
  | _ => true

theorem sqsKept_keeps (q : Queue SqsMessage) (e : Sqs.Move) (h : sqsKept q e = true) :
    Sqs.Keeps oneEvent q e := by
  cases e with
  | emit =>
    intro i m hm
    simpa [sqsKept, hm] using h
  | _ => trivial

def redisKept (q : Queue StreamEntry) : RedisStreams.Move → Bool
  | .emit => q.inHand.all fun (_, e) => e.carries oneEvent noDump "message"
  | .fail => q.session.all fun d => d.waiting.isEmpty
  | _ => true

theorem redisKept_keeps (q : Queue StreamEntry) (e : RedisStreams.Move)
    (h : redisKept q e = true) : RedisStreams.Keeps ⟨none⟩ noDump oneEvent q e := by
  cases e with
  | emit =>
    intro i m hm
    simpa [redisKept, hm, RedisStreams.Config.messageField] using h
  | fail =>
    intro d hd
    simpa [redisKept, hd] using h
  | _ => trivial

/-- A failure in each of the four runs, and nothing is lost. -/
theorem delivered_after_failures :
    (∃ w : World Unit KafkaMessage, w.emitted = [((), 1), ((), 0)] ∧ w.AtLeastOnce true) ∧
    (∃ q : Queue SqsMessage, q.emitted = [0] ∧ q.AtLeastOnce Sqs.Due) ∧
    (∃ w : World Unit KinesisRecord, w.emitted = [((), 1), ((), 0)] ∧ w.AtLeastOnce true) ∧
    ∃ q : Queue StreamEntry, q.emitted = [1, 0] ∧ q.AtLeastOnce RedisStreams.Due := by
  obtain ⟨hkafka, hsqs, hkinesis, hredis⟩ := @at_least_once_of_keeps Unit _ _ noDump oneEvent
  refine ⟨?_, ?_, ?_, ?_⟩
  · have hstart : (Kafka.receiver ⟨none⟩ oneEvent).start (emptyWorld KafkaMessage) := ⟨rfl, rfl⟩
    have hrun : ((Kafka.receiver ⟨none⟩ oneEvent).runChecked kafkaKept (emptyWorld _) kafkaRun).any
        (fun w => w.emitted == [((), 1), ((), 0)]) = true := by decide
    obtain ⟨w, hw, hemitted⟩ := Machine.reaches_of_runChecked kafkaKept_keeps hstart hrun
    exact ⟨w, eq_of_beq hemitted, hkafka ⟨none⟩ w hw⟩
  · have hstart : (Sqs.receiver ⟨none⟩ oneEvent).start (emptyQueue SqsMessage) :=
      ⟨rfl, rfl, rfl, rfl⟩
    have hrun : ((Sqs.receiver ⟨none⟩ oneEvent).runChecked sqsKept (emptyQueue _) sqsRun).any
        (fun q => q.emitted == [0]) = true := by decide
    obtain ⟨q, hq, hemitted⟩ :=
      Machine.reaches_of_runChecked sqsKept_keeps hstart hrun
    exact ⟨q, eq_of_beq hemitted, hsqs ⟨none⟩ q hq⟩
  · have hstart : (Kinesis.receiver ⟨none⟩ oneEvent).start (emptyWorld KinesisRecord) :=
      ⟨rfl, rfl, fun _ => rfl⟩
    have hrun : ((Kinesis.receiver ⟨none⟩ oneEvent).runChecked kinesisKept (emptyWorld _)
        kinesisRun).any (fun w => w.emitted == [((), 1), ((), 0)]) = true := by decide
    obtain ⟨w, hw, hemitted⟩ :=
      Machine.reaches_of_runChecked kinesisKept_keeps hstart hrun
    exact ⟨w, eq_of_beq hemitted, hkinesis ⟨none⟩ w hw⟩
  · have hstart : (RedisStreams.receiver ⟨none⟩ noDump oneEvent).start (emptyQueue StreamEntry) :=
      ⟨rfl, rfl, rfl, rfl⟩
    have hrun : ((RedisStreams.receiver ⟨none⟩ noDump oneEvent).runChecked redisKept
        (emptyQueue _) redisRun).any (fun q => q.emitted == [1, 0]) = true := by decide
    obtain ⟨q, hq, hemitted⟩ :=
      Machine.reaches_of_runChecked redisKept_keeps hstart hrun
    exact ⟨q, eq_of_beq hemitted, hredis ⟨none⟩ q hq⟩

/-- A message that came after the first start and before the position of the next
one, without an emit, is lost. -/
theorem not_atLeastOnce_of_lost {μ : Type} {fromEnd : Bool} {w : World Unit μ} {b : Unit → Nat}
    {i : Nat} (hsession : w.session = none) (hsince : w.since = some b) (hb : b () ≤ i)
    (hi : i < (w.log ()).length) (hemitted : w.emitted = [])
    (hresume : i < resume fromEnd w.log w.saved ()) : ¬ w.AtLeastOnce fromEnd := by
  intro h
  rcases h.delivered () i ⟨b, hsince, hb⟩ hi with hin | hdue
  · simp [hemitted] at hin
  · simp only [World.Due, hsession] at hdue
    omega

/-- A message is lost: at the default offset reset, when the first emit of its
partition fails; at the default iterator type, when the first emit of its shard
does; and in a consumer group, when its own emit does. -/
theorem first_emit_fails :
    (∃ w, (Kafka.receiver ⟨none⟩ oneEvent).run (emptyWorld KafkaMessage)
        [.start, .publish () kafkaMessage, .poll (), .fail] = some w ∧
      ¬ w.AtLeastOnce true) ∧
    (∃ w, (Kinesis.receiver ⟨none⟩ oneEvent).run (emptyWorld KinesisRecord)
        [.start true [()], .publish () kinesisRecord, .getRecords () 1, .fail] = some w ∧
      ¬ w.AtLeastOnce true) ∧
    ∃ q, (RedisStreams.receiver ⟨none⟩ noDump oneEvent).run (emptyQueue StreamEntry)
        [.add streamEntry, .start, .readGroup 1, .fail] = some q ∧
      ¬ q.AtLeastOnce RedisStreams.Due := by
  refine ⟨⟨_, rfl, ?_⟩, ⟨_, rfl, ?_⟩, ⟨_, rfl, ?_⟩⟩
  · exact not_atLeastOnce_of_lost rfl rfl (Nat.le_refl 0) (by decide) rfl (by decide)
  · exact not_atLeastOnce_of_lost rfl rfl (Nat.le_refl 0) (by decide) rfl (by decide)
  · intro h
    rcases h.delivered 0 (by decide) with hin | hlast | ⟨d, hd, -⟩
    · cases hin
    · exact absurd hlast (by decide)
    · cases hd

end AgenticKibana.Receivers
