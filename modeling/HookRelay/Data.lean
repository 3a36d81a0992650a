import Mathlib.Data.BitVec
import Mathlib.Data.Rat.Defs
import HookRelay.Lib.PyJson

/-!
# Identifiers, JSON values, rows and messages

The records of `db/models.py` as the modelled code reads and writes them, and the messages of
the pending topic. Wall-clock columns (`created_at`, `attempted_at`, `latency_ms`) are left out:
no modelled function branches on them, and the order of a table's list is its insertion order.
-/

namespace HookRelay

open PyJson (CodePoint)

/-- A `uuid.UUID`, which is its 128-bit integer. -/
structure UUID where
  int : BitVec 128
  deriving DecidableEq

/-- What `json.loads` returns. A float is a finite number, an infinity or not a number. -/
inductive Json where
  | null
  | bool (b : Bool)
  | int (n : Int)
  | float (q : ℚ)
  | infinity (negative : Bool)
  | nan
  | str (s : String)
  | arr (elements : List Json)
  | obj (fields : List (String × Json))

/-- The settings the modelled code reads (`config.py`). -/
structure Settings where
  workerConcurrency : Nat := 10
  maxRetryAttempts : Int := 15

/-- A row of `endpoints`. -/
structure Endpoint where
  id : UUID
  url : String
  description : Option String
  eventTypes : List String
  secret : String
  enabled : Bool

/-- The values of `events.status`, stored or derived. -/
inductive EventStatus where
  | pending
  | retrying
  | delivered
  | partiallyRetrying
  | partiallyDelivered
  | dlq
  deriving DecidableEq

/-- A row of `events`. -/
structure Event where
  id : UUID
  eventType : String
  idempotencyKey : String
  payload : Json
  status : EventStatus

/-- The values of `delivery_attempts.status`. -/
inductive AttemptStatus where
  | success
  | failure
  | timeout
  deriving DecidableEq

def AttemptStatus.toString : AttemptStatus → String
  | .success => "success"
  | .failure => "failure"
  | .timeout => "timeout"

/-- What a TEXT column takes: PostgreSQL rejects U+0000, and a surrogate has no UTF-8. -/
def columnText (text : List CodePoint) : Bool :=
  text.all fun c => c.val ≠ 0 && !PyJson.isHigh c && !PyJson.isLow c

/-- A row of `delivery_attempts`. -/
structure DeliveryAttempt where
  eventId : UUID
  endpointId : UUID
  attemptNumber : Nat
  status : AttemptStatus
  httpStatus : Option Nat
  responseBody : Option (List CodePoint)

/-- The columns take the row's text. -/
def DeliveryAttempt.storable (a : DeliveryAttempt) : Bool := a.responseBody.all columnText

/-- The columns of the constraint `uq_delivery_attempt`. -/
def DeliveryAttempt.key (a : DeliveryAttempt) : UUID × UUID × Nat :=
  (a.eventId, a.endpointId, a.attemptNumber)

/-- A row of `dlq_entries`. -/
structure DLQEntry where
  id : UUID
  eventId : UUID
  endpointId : UUID
  reason : String
  deriving DecidableEq

/-- The columns of the constraint `uq_dlq_entry`. -/
def DLQEntry.pair (d : DLQEntry) : UUID × UUID := (d.eventId, d.endpointId)

/-- A row of `outbox`. -/
structure OutboxEntry where
  id : UUID
  eventId : UUID

/-- A message of the pending topic: `{"event_id": …}`, with the two optional fields that only a
scheduled retry carries. -/
structure Message where
  eventId : UUID
  endpointId : Option UUID := none
  attemptNumber : Option Nat := none
  deriving DecidableEq

/-- `int(message.get("attempt_number", 0))`. -/
def Message.attempt (m : Message) : Nat := m.attemptNumber.getD 0

/-- The message published for an event by the outbox relay, a manual retry or a replay. -/
def Message.fanOut (eventId : UUID) : Message := { eventId }

/-- The message stored with a scheduled retry. -/
def Message.retry (eventId endpointId : UUID) (attemptNumber : Nat) : Message :=
  { eventId, endpointId := some endpointId, attemptNumber := some attemptNumber }

@[simp] theorem Message.fanOut_eventId (e : UUID) : (Message.fanOut e).eventId = e := rfl
@[simp] theorem Message.fanOut_endpointId (e : UUID) : (Message.fanOut e).endpointId = none := rfl
@[simp] theorem Message.fanOut_attempt (e : UUID) : (Message.fanOut e).attempt = 0 := rfl
@[simp] theorem Message.retry_eventId (e p : UUID) (n : Nat) : (Message.retry e p n).eventId = e := rfl
@[simp] theorem Message.retry_endpointId (e p : UUID) (n : Nat) :
    (Message.retry e p n).endpointId = some p := rfl
@[simp] theorem Message.retry_attempt (e p : UUID) (n : Nat) : (Message.retry e p n).attempt = n := rfl

end HookRelay
