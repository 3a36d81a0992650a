import HookRelay.Data
import HookRelay.CommitSafety
import HookRelay.Lib.PyText

/-!
# Records of arbitrary bytes

`run_delivery_loop` of one worker from the bytes of a record's value to the commit behind it: the
consumer's deserializer, the head of `_process_record` with what Python's `UUID`, `int` and `dict.get`
make of a JSON value, the deliveries, and the exceptions on the way. `KeyError` and `ValueError` make a
record a poison pill, any other exception ends the loop.

PostgreSQL, Redis and Kafka are available, nobody else writes, and every POST is answered with 200 and a
body the text column takes, so a delivery is made once and leaves a success row. `limit` is Python's
recursion limit.
-/

namespace HookRelay

open PyJson (Value Field CodePoint)
open PyText (str)

/-! ## Reading a message -/

/-- `value_deserializer`, or an exception. -/
def deserialize (limit : Nat) (raw : List UInt8) : Option Value := do
  let text ← PyText.decodeUtf8 raw
  (PyJson.loads limit text).toOption

/-- The exceptions at the head of `_process_record`: those that are caught, `KeyError` and `ValueError`,
and the others, such as `TypeError`, `AttributeError` and `OverflowError`. -/
inductive ReadError where
  | poison
  | other
  deriving DecidableEq

/-- `UUID(hex)` of a string, or `ValueError`. -/
def UUID.ofText (hex : List CodePoint) : Option UUID := do
  let hex := PyText.strip (str "\x7b\x7d") (PyText.remove (str "uuid:") (PyText.remove (str "urn:") hex))
  let hex := PyText.remove (str "-") hex
  if hex.length ≠ 32 then none
  else
    let int ← PyText.parseInt 16 hex
    if 0 ≤ int ∧ int < 2 ^ 128 then some ⟨BitVec.ofInt 128 int⟩ else none

/-- `UUID(value)`. Only a string has the `replace` it calls. -/
def readUuid : Value → Except ReadError UUID
  | .str s => match UUID.ofText s with
    | some id => .ok id
    | none => .error .poison
  | _ => .error .other

/-- `int(value)`. -/
def readInt : Value → Except ReadError Int
  | .int n => .ok n
  | .bool b => .ok (if b then 1 else 0)
  | .float (.finite negative rank) =>
    .ok (if negative then -(Binary64.truncate rank : Int) else Binary64.truncate rank)
  | .float .nan => .error .poison
  | .float (.infinity _) => .error .other
  | .str s => match PyText.parseInt 10 s with
    | some n => .ok n
    | none => .error .poison
  | .null | .arr _ | .obj _ => .error .other

/-- `bool(value)`. -/
def truthy : Value → Bool
  | .null => false
  | .bool b => b
  | .int n => n ≠ 0
  | .float (.finite _ rank) => rank.val ≠ 0
  | .float _ => true
  | .str s => !s.isEmpty
  | .arr elements => !elements.isEmpty
  | .obj fields => !fields.isEmpty

/-- `message.get(key)`. -/
def getField (fields : List Field) (key : String) : Option Value :=
  (fields.find? (·.1 = str key)).map (·.2)

/-- A message with an attempt number of any size. -/
structure RawMessage where
  eventId : UUID
  attemptNumber : Int
  endpointId : Option UUID

/-- The `try` block of `_process_record`. -/
def readMessage : Value → Except ReadError RawMessage
  | .obj fields => do
    let eventId ← match getField fields "event_id" with
      | some v => readUuid v
      | none => .error .poison
    let attemptNumber ← readInt ((getField fields "attempt_number").getD (.int 0))
    let endpointIdRaw := (getField fields "endpoint_id").getD .null
    let endpointId ← if truthy endpointIdRaw then (readUuid endpointIdRaw).map some else .ok none
    .ok { eventId, attemptNumber, endpointId }
  | _ => .error .other

/-! ## The types it is written for -/

def isText : Value → Bool
  | .str _ => true
  | _ => false

/-- A string, a truth value or a number that is not infinite. -/
def isNumeric : Value → Bool
  | .null | .arr _ | .obj _ | .float (.infinity _) => false
  | .bool _ | .int _ | .float (.finite _ _) | .float .nan | .str _ => true

/-- An object whose fields have the types the `try` block is written for, as far as it gets before a
field makes a poison pill of it. -/
def readable : Value → Bool
  | .obj fields =>
    let attemptNumber := (getField fields "attempt_number").getD (.int 0)
    let endpointIdRaw := (getField fields "endpoint_id").getD .null
    match getField fields "event_id" with
    | none => true
    | some eventId =>
      isText eventId && (!(readUuid eventId).toBool || (isNumeric attemptNumber &&
        (!(readInt attemptNumber).toBool || !truthy endpointIdRaw || isText endpointIdRaw)))
  | _ => false

theorem readUuid_other {v : Value} : readUuid v = .error .other ↔ isText v = false := by
  cases v with
  | str s =>
    simp only [readUuid, isText]
    cases UUID.ofText s <;> simp
  | null | bool | int | float | arr | obj => simp [readUuid, isText]

theorem readInt_other {v : Value} : readInt v = .error .other ↔ isNumeric v = false := by
  cases v with
  | str s =>
    simp only [readInt, isNumeric]
    cases PyText.parseInt 10 s <;> simp
  | float x => cases x <;> simp [readInt, isNumeric]
  | null | bool | int | arr | obj => simp [readInt, isNumeric]

/-- The exception is neither a `KeyError` nor a `ValueError` where a type is not the one expected. -/
theorem readMessage_other {v : Value} : readMessage v = .error .other ↔ readable v = false := by
  cases v with
  | obj fields =>
    simp only [readMessage, readable]
    cases getField fields "event_id" with
    | none => simp [bind, Except.bind]
    | some eventId =>
      have event := readUuid_other (v := eventId)
      have attempt := readInt_other (v := (getField fields "attempt_number").getD (.int 0))
      have endpoint := readUuid_other (v := (getField fields "endpoint_id").getD .null)
      simp only [bind, Except.bind]
      generalize (getField fields "attempt_number").getD (.int 0) = n at attempt ⊢
      generalize (getField fields "endpoint_id").getD .null = raw at endpoint ⊢
      cases id : readUuid eventId with
      | error e =>
        rw [id] at event
        cases e with
        | poison => simp_all [Except.toBool]
        | other => simp_all
      | ok eventId' =>
        rw [id] at event
        cases number : readInt n with
        | error e =>
          rw [number] at attempt
          cases e with
          | poison => simp_all [Except.toBool]
          | other => simp_all [Except.toBool]
        | ok attemptNumber =>
          rw [number] at attempt
          cases given : truthy raw with
          | false => simp_all [Except.toBool]
          | true =>
            cases target : readUuid raw with
            | error e => cases e <;> simp_all [Except.toBool, Except.map]
            | ok endpointId => simp_all [Except.toBool, Except.map]
  | null | bool | int | float | str | arr => simp [readMessage, readable]

/-! ## The tables -/

/-- A row of `delivery_attempts` as a record of arbitrary bytes makes it. -/
structure RawAttempt where
  eventId : UUID
  endpointId : UUID
  attemptNumber : Int
  status : AttemptStatus
  deriving DecidableEq

/-- The tables the delivery loop uses. -/
structure RawTables where
  endpoints : List Endpoint
  events : List Event
  attempts : List RawAttempt

namespace RawTables

def getEvent (t : RawTables) (id : UUID) : Option Event := t.events.find? (·.id = id)

def getEndpoint (t : RawTables) (id : UUID) : Option Endpoint := t.endpoints.find? (·.id = id)

def matching (t : RawTables) (eventType : String) : List Endpoint :=
  t.endpoints.filter fun p => p.enabled && p.eventTypes.contains eventType

def hasSuccess (t : RawTables) (eventId endpointId : UUID) : Bool :=
  t.attempts.any fun a => a.eventId = eventId && a.endpointId = endpointId && a.status = .success

/-- What the driver takes for an `Integer` column. -/
def Int4 (n : Int) : Prop := -2 ^ 31 ≤ n ∧ n < 2 ^ 31

instance (n : Int) : Decidable (Int4 n) := inferInstanceAs (Decidable (_ ∧ _))

/-- `INSERT INTO delivery_attempts … ON CONFLICT DO NOTHING`, or an exception: an attempt number out of
range, or a row that one of the foreign keys does not find. -/
def insertAttempt (t : RawTables) (a : RawAttempt) : Option RawTables :=
  if Int4 a.attemptNumber then
    if t.attempts.any fun b =>
        b.eventId = a.eventId && b.endpointId = a.endpointId && b.attemptNumber = a.attemptNumber then some t
    else if t.events.any (·.id = a.eventId) && t.endpoints.any (·.id = a.endpointId) then
      some { t with attempts := t.attempts ++ [a] }
    else none
  else none

end RawTables

/-! ## A call -/

/-- Where a `_deliver_to_endpoint` call stands: before its idempotency `SELECT`, before its POST and
before the insert of the attempt row. -/
inductive RawStage where
  | checking
  | posting
  | recording
  deriving DecidableEq

structure RawDelivery where
  event : Event
  attemptNumber : Int
  endpoint : Endpoint
  stage : RawStage
  rest : List Endpoint

/-- A `_process_record` call: with the value it is given, with the message it read, in its loop over the
targets, and at its end. -/
inductive RawCall where
  | reading (v : Value)
  | resolving (m : RawMessage)
  | delivering (d : RawDelivery)
  | ended (o : Outcome)

/-- The value of a fetched record, which `getmany` returned only if it could be deserialized. -/
def RawCall.init (limit : Nat) (raw : List UInt8) : RawCall :=
  match deserialize limit raw with
  | some v => .reading v
  | none => .ended .raised

def RawCall.read (v : Value) : RawCall :=
  match readMessage v with
  | .ok m => .resolving m
  | .error .poison => .ended .poisonPill
  | .error .other => .ended .raised

def RawCall.next (event : Event) (attemptNumber : Int) : List Endpoint → RawCall
  | [] => .ended .returned
  | endpoint :: rest => .delivering { event, attemptNumber, endpoint, stage := .checking, rest }

/-- The targets: the endpoint of a targeted retry if it exists and is enabled, or every matching one. -/
def RawTables.targets (t : RawTables) (event : Event) (m : RawMessage) : List Endpoint :=
  match m.endpointId with
  | some endpointId => (t.getEndpoint endpointId).toList.filter (·.enabled)
  | none => t.matching event.eventType

/-- A missing event ends the call normally. -/
def RawCall.resolve (t : RawTables) (m : RawMessage) : RawCall :=
  match t.getEvent m.eventId with
  | none => .ended .returned
  | some event => .next event m.attemptNumber (t.targets event m)

/-- The next step of a call: parsing, resolving the targets, and for each of them the idempotency
`SELECT`, the POST and the insert. -/
def RawCall.step (t : RawTables) : RawCall → Option (RawTables × RawCall)
  | .reading v => some (t, .read v)
  | .resolving m => some (t, .resolve t m)
  | .delivering d =>
    let next := RawCall.next d.event d.attemptNumber d.rest
    match d.stage with
    | .checking =>
      some (t, if t.hasSuccess d.event.id d.endpoint.id then next else .delivering { d with stage := .posting })
    | .posting => some (t, .delivering { d with stage := .recording })
    | .recording =>
      match t.insertAttempt ⟨d.event.id, d.endpoint.id, d.attemptNumber, .success⟩ with
      | some t => some (t, next)
      | none => some (t, .ended .raised)
  | .ended _ => none

/-- The next step of the call raises no exception but `PoisonPillError`. -/
def RawCall.tolerable : RawCall → Bool
  | .reading v => readable v
  | .delivering d => d.stage ≠ .recording || RawTables.Int4 d.attemptNumber
  | .resolving _ | .ended _ => true

/-! ## The loop -/

theorem PartitionWatermark.initial_le : ∀ o ∈ (∅ : Finset Int), o ≤ -1 :=
  fun o none => absurd none (Finset.notMem_empty o)

/-- `PartitionWatermark()`. -/
def PartitionWatermark.initial : PartitionWatermark := ⟨∅, -1, -1, initial_le⟩

/-- One worker process that owns every partition. `exited`: an exception left `run_delivery_loop`. -/
structure DeliveryLoop where
  group : ConsumerGroup (List UInt8) RawCall
  tables : RawTables
  exited : Bool

namespace DeliveryLoop

/-- The loop starts at the committed positions. -/
def initial (log : List (Record (List UInt8))) (committed : Nat → Nat) (tables : RawTables) :
    DeliveryLoop where
  group :=
    { log, committed
      workers := [{ positions := fun p => some (committed p), watermarks := fun _ => .initial }] }
  tables := tables
  exited := false

/-- `raise`: the head of the loop finds `_fatal_exc` set. A commit request is applied when all those
issued before it are. -/
inductive Action where
  | getmany (records : List (Record (List UInt8)))
  | raise
  | start
  | call (i : Nat)
  | finish (i : Nat)
  | commitApply

section

variable (limit concurrency : Nat)

/-- `getmany` raises what the deserializer raises for one of the records. -/
def getmany (s : DeliveryLoop) (records : List (Record (List UInt8))) : Option DeliveryLoop := do
  let group ← s.group.getmany concurrency 0 records
  if records.all fun r => (deserialize limit r.value).isSome then some { s with group }
  else some { s with exited := true }

def raise (s : DeliveryLoop) : Option DeliveryLoop := do
  let worker ← s.group.workers[0]?
  if worker.fatal ∧ worker.batch.isEmpty then some { s with exited := true } else none

def start (s : DeliveryLoop) : Option DeliveryLoop :=
  (s.group.start concurrency (RawCall.init limit) 0).map fun group => { s with group }

/-- Call `i` runs to its next await. -/
def call (s : DeliveryLoop) (i : Nat) : Option DeliveryLoop := do
  let t ← s.group.tasks[i]?
  let (tables, data) ← t.data.step s.tables
  let group ← s.group.advance i data
  some { s with tables, group }

/-- The rest of `_process_and_commit`. -/
def finish (s : DeliveryLoop) (i : Nat) : Option DeliveryLoop := do
  let t ← s.group.tasks[i]?
  match t.data with
  | .ended o => (s.group.finish i o).map fun group => { s with group }
  | _ => none

def step (s : DeliveryLoop) (a : Action) : Option DeliveryLoop :=
  if s.exited then none
  else match a with
    | .getmany records => s.getmany limit concurrency records
    | .raise => s.raise
    | .start => s.start limit concurrency
    | .call i => s.call i
    | .finish i => s.finish i
    | .commitApply => (s.group.commitApply 0).map fun group => { s with group }

end

/-- What the loop takes without an exception of its own: a batch that can be deserialized, and a call
that raises none. -/
def tolerable (limit : Nat) (s : DeliveryLoop) : Action → Bool
  | .getmany records => records.all fun r => (deserialize limit r.value).isSome
  | .call i => (s.group.tasks[i]?).all (·.data.tolerable)
  | _ => true

/-- All records were fetched, their tasks have finished, and the commits are applied. -/
structure Drained (s : DeliveryLoop) : Prop where
  fetched : ∀ w ∈ s.group.workers, w.batch = [] ∧
    ∀ r ∈ s.group.log, ∀ position ∈ w.positions r.partition, r.offset < position
  finished : s.group.tasks = []
  applied : s.group.commits = []

instance (s : DeliveryLoop) : Decidable s.Drained :=
  decidable_of_iff ((∀ w ∈ s.group.workers, w.batch.isEmpty = true ∧
      ∀ r ∈ s.group.log, ∀ position ∈ w.positions r.partition, r.offset < position) ∧
    s.group.tasks.isEmpty = true ∧ s.group.commits.isEmpty = true)
    ⟨fun h => ⟨fun w hw => ⟨List.isEmpty_iff.1 (h.1 w hw).1, (h.1 w hw).2⟩, List.isEmpty_iff.1 h.2.1,
      List.isEmpty_iff.1 h.2.2⟩,
     fun h => ⟨fun w hw => ⟨List.isEmpty_iff.2 (h.fetched w hw).1, (h.fetched w hw).2⟩,
      List.isEmpty_iff.2 h.finished, List.isEmpty_iff.2 h.applied⟩⟩

end DeliveryLoop

end HookRelay
