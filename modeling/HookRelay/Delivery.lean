import HookRelay.ConsumerGroup
import HookRelay.Db
import HookRelay.Retry

/-!
# One `_process_record` call

What the processes share (`Store`), and the steps of `_process_record`, `_deliver_to_endpoint`
and `move_to_dlq` between two awaits on it. Every statement, script, publish and POST is one
step, so the steps of different calls interleave freely.

`history` records what happened, latest first; no step reads it.
-/

namespace HookRelay

open PyJson (CodePoint)

/-- What awaiting `http_client.post` and reading the text of the response yields: a response with its
text, one whose text cannot be decoded, `httpx.TimeoutException`, or any other exception. -/
inductive HttpResult where
  | response (statusCode : Nat) (text : List CodePoint)
  | undecodable (statusCode : Nat)
  | timeout
  | error
  deriving DecidableEq

namespace HttpResult

/-- `attempt_status`; `resp.is_success` is the range 200 to 299, and comes after `resp.text`. -/
def attemptStatus : HttpResult → AttemptStatus
  | .response code _ => if 200 ≤ code ∧ code ≤ 299 then .success else .failure
  | .undecodable _ => .failure
  | .timeout => .timeout
  | .error => .failure

/-- `http_status`, which is set before the text is read. -/
def httpStatus : HttpResult → Option Nat
  | .response code _ | .undecodable code => some code
  | .timeout | .error => none

/-- `resp.text[:1024]`. -/
def responseBody : HttpResult → Option (List CodePoint)
  | .response _ text => some (text.take 1024)
  | .undecodable _ | .timeout | .error => none

/-- A response came, and it was one of success. -/
def isSuccess (r : HttpResult) : Bool := r.httpStatus.any fun code => 200 ≤ code && code ≤ 299

/-- `resp.text` does not raise. -/
def decoded : HttpResult → Bool
  | .undecodable _ => false
  | .response _ _ | .timeout | .error => true

/-- The column of the attempt row takes the text. -/
def storable (r : HttpResult) : Bool := r.responseBody.all columnText

def succeeded (r : HttpResult) : Bool := r.attemptStatus = .success

theorem succeeded_iff {r : HttpResult} : r.succeeded = true ↔ r.attemptStatus = .success := by
  unfold succeeded
  exact decide_eq_true_iff

/-- A success is recorded for a response of success whose text can be decoded. -/
theorem succeeded_eq (r : HttpResult) : r.succeeded = (r.isSuccess && r.decoded) := by
  cases r with
  | response code text =>
    simp only [succeeded, attemptStatus, isSuccess, httpStatus, Option.any_some, decoded, Bool.and_true]
    split <;> simp_all
  | undecodable => simp [succeeded, attemptStatus, decoded]
  | timeout | error => rfl

/-- A 4xx response other than 429. -/
def isPermanent (r : HttpResult) : Bool :=
  match r.httpStatus with
  | some code => 400 ≤ code && code < 500 && code ≠ 429
  | none => false

end HttpResult

/-- A POST of an event to an endpoint, and what came of it. The signature is computed from the
secret and the payload. -/
structure Post where
  eventId : UUID
  endpointId : UUID
  attemptNumber : Nat
  url : String
  secret : String
  eventType : String
  payload : Json
  result : HttpResult

/-- What happened: a POST was made while processing a record, a new attempt row was written while
processing a record, a retry was scheduled, a record was published. -/
inductive Happening where
  | posted (r : Record Message) (p : Post)
  | recorded (r : Record Message) (a : DeliveryAttempt)
  | scheduled (k : Member)
  | published (r : Record Message)

/-! ## Open API transactions -/

inductive RequestKind where
  | retry
  | replay (dlqId : UUID)
  deriving DecidableEq

/-- How far a `retry_event` or `replay_dlq_entry` request has come: it holds its row lock, it has
published its record, its `DELETE` ran, it committed, or it was rolled back. -/
inductive RequestStage where
  | locked
  | published (r : Record Message)
  | deleted (r : Record Message) (rows : List UUID)
  | committed (r : Record Message) (rows : List UUID)
  | aborted
  deriving DecidableEq

structure Request where
  kind : RequestKind
  eventId : UUID
  stage : RequestStage

namespace Request

def isOpen (q : Request) : Bool :=
  match q.stage with
  | .locked | .published _ | .deleted _ _ => true
  | .committed _ _ | .aborted => false

/-- The dead letters whose deletion the request has executed and not committed. -/
def deleting (q : Request) : List UUID :=
  match q.stage with
  | .deleted _ rows => rows
  | _ => []

/-- The dead letters the request has locked. -/
def lockedRows (q : Request) : List UUID :=
  match q.kind with
  | .retry => q.deleting
  | .replay dlqId => if q.isOpen then [dlqId] else []

/-- `retry_event` locks its event row `FOR UPDATE`. -/
def locksEvent (q : Request) (eventId : UUID) : Bool :=
  q.kind = .retry && q.eventId = eventId && q.isOpen

end Request

/-- What the processes share: PostgreSQL with the open transactions, Redis and the DLQ topic. -/
structure Store where
  db : Database := .empty
  redis : RedisRetryScheduler := {}
  dlqTopic : List (UUID × UUID) := []
  requests : List Request := []
  history : List Happening := []

namespace Store

/-- An open `retry_event` holds the event row `FOR UPDATE`. An insert that references the event
takes it `FOR KEY SHARE` and waits; an insert that conflicts inserts nothing and does not. -/
def eventLocked (st : Store) (eventId : UUID) : Bool := st.requests.any (·.locksEvent eventId)

def dlqLocked (st : Store) (dlqId : UUID) : Bool := st.requests.any (dlqId ∈ ·.lockedRows)

/-- The dead letter's deletion is executed by an open transaction. An insert that conflicts with
it waits for that transaction. -/
def dlqDeleting (st : Store) (dlqId : UUID) : Bool := st.requests.any (dlqId ∈ ·.deleting)

def log (st : Store) (h : Happening) : Store := { st with history := h :: st.history }

end Store

/-! ## The local state of a call -/

/-- Where a `_deliver_to_endpoint` call stands: before its idempotency `SELECT`, before its POST,
before the insert of the attempt row, on the failure path, or in `move_to_dlq` after the insert
of the dead letter, and after the cancel. -/
inductive Stage where
  | checking
  | posting
  | recording (result : HttpResult)
  | failed (result : HttpResult)
  | cancelling
  | notifying
  deriving DecidableEq

/-- The POST was made. -/
def Stage.requested : Stage → Bool
  | .checking | .posting => false
  | _ => true

/-- What the POST yielded, as long as the delivery needs it. -/
def Stage.result : Stage → Option HttpResult
  | .recording result | .failed result => some result
  | _ => none

/-- The event and endpoints are copies taken when the targets were resolved. -/
structure Delivery where
  event : Event
  attemptNumber : Nat
  endpoint : Endpoint
  stage : Stage
  rest : List Endpoint

inductive Call where
  | resolving
  | delivering (d : Delivery)
  | finished

def Call.delivery : Call → Option Delivery
  | .delivering d => some d
  | _ => none

@[simp] theorem Call.delivery_eq_some {c : Call} {d : Delivery} :
    c.delivery = some d ↔ c = .delivering d := by
  cases c <;> simp [Call.delivery]

/-- The endpoints the call still has to deliver to, the current one included. -/
def Call.ahead : Call → List UUID
  | .delivering d => (d.endpoint :: d.rest).map (·.id)
  | _ => []

/-- The loop over the targets: start the delivery to the next one. -/
def deliverNext (event : Event) (attemptNumber : Nat) : List Endpoint → Call
  | [] => .finished
  | endpoint :: rest => .delivering { event, attemptNumber, endpoint, stage := .checking, rest }

/-- The targets of a message: the endpoint of a targeted retry if it exists and is enabled, or
every matching endpoint of a fan-out. -/
def targets (db : Tables) (event : Event) (m : Message) : List Endpoint :=
  match m.endpointId with
  | some endpointId => (db.getEndpoint endpointId).toList.filter (·.enabled)
  | none => db.matching event.eventType

/-- The session at the head of `_process_record`. A missing event ends the call normally. -/
def resolveTargets (db : Tables) (m : Message) : Call :=
  match db.getEvent m.eventId with
  | none => .finished
  | some event => deliverNext event m.attempt (targets db event m)

namespace Delivery

def next (d : Delivery) : Call := deliverNext d.event d.attemptNumber d.rest

def goto (d : Delivery) (stage : Stage) : Call := .delivering { d with stage }

def post (d : Delivery) (result : HttpResult) : Post where
  eventId := d.event.id
  endpointId := d.endpoint.id
  attemptNumber := d.attemptNumber
  url := d.endpoint.url
  secret := d.endpoint.secret
  eventType := d.event.eventType
  payload := d.event.payload
  result := result

def row (d : Delivery) (result : HttpResult) : DeliveryAttempt where
  eventId := d.event.id
  endpointId := d.endpoint.id
  attemptNumber := d.attemptNumber
  status := result.attemptStatus
  httpStatus := result.httpStatus
  responseBody := result.responseBody

/-- `is_permanent or next_attempt >= settings.max_retry_attempts`. -/
def exhausted (cfg : Settings) (d : Delivery) (result : HttpResult) : Bool :=
  result.isPermanent || cfg.maxRetryAttempts ≤ (d.attemptNumber + 1 : Nat)

def reason (cfg : Settings) (result : HttpResult) : String :=
  if result.isPermanent then s!"Permanent error: HTTP {result.httpStatus.getD 0}"
  else s!"Exhausted {cfg.maxRetryAttempts} attempts. Last status: {result.attemptStatus.toString}"

/-- The member of the delivery's own attempt number, which `move_to_dlq` cancels. -/
def member (d : Delivery) : Member := ⟨d.event.id, d.endpoint.id, d.attemptNumber⟩

/-- The member under which the next attempt is scheduled. -/
def nextMember (d : Delivery) : Member := ⟨d.event.id, d.endpoint.id, d.attemptNumber + 1⟩

/-- The message stored with the next attempt. -/
def nextMessage (d : Delivery) : Message := .retry d.event.id d.endpoint.id (d.attemptNumber + 1)

/-! ## The steps -/

/-- The idempotency `SELECT`. -/
def select (st : Store) (d : Delivery) : Option (Store × Call) :=
  if d.stage = .checking then
    some (st, if st.db.hasSuccess d.event.id d.endpoint.id then d.next else d.goto .posting)
  else none

/-- The POST. -/
def request (st : Store) (r : Record Message) (d : Delivery) (result : HttpResult) :
    Option (Store × Call) :=
  if d.stage = .posting then some (st.log (.posted r (d.post result)), d.goto (.recording result))
  else none

/-- The insert of the attempt row, `ON CONFLICT DO NOTHING`. A success ends the delivery. -/
def record (st : Store) (r : Record Message) (d : Delivery) : Option (Store × Call) :=
  match d.stage with
  | .recording result => do
    let row := d.row result
    let taken := st.db.conflictsAttempt row
    if !taken && st.eventLocked d.event.id then none
    else
      let db ← st.db.insertAttempt row
      let st := { st with db }
      some (if taken then st else st.log (.recorded r row),
        if result.succeeded then d.next else d.goto (.failed result))
  | _ => none

/-- `scheduler.schedule(…)` of the next attempt, due at `retryAfter`. -/
def schedule (cfg : Settings) (st : Store) (d : Delivery) (retryAfter : Nat) :
    Option (Store × Call) :=
  match d.stage with
  | .failed result =>
    if d.exhausted cfg result then none
    else
      let redis := st.redis.schedule d.nextMember d.nextMessage retryAfter
      some ({ st with redis }.log (.scheduled d.nextMember), d.next)
  | _ => none

/-- `move_to_dlq`: the insert of the dead letter, `ON CONFLICT DO NOTHING`. -/
def insertDlq (cfg : Settings) (st : Store) (d : Delivery) (id : UUID) : Option (Store × Call) :=
  match d.stage with
  | .failed result => do
    let entry : DLQEntry := ⟨id, d.event.id, d.endpoint.id, reason cfg result⟩
    let taken := st.db.conflictsDlq entry
    if d.exhausted cfg result &&
        (if taken then st.db.dlq.all fun e => e.pair ≠ entry.pair || !st.dlqDeleting e.id
          else !st.eventLocked d.event.id) then
      let db ← st.db.insertDlq entry
      some ({ st with db }, d.goto .cancelling)
    else none
  | _ => none

/-- `move_to_dlq`: the cancel of the pending retry, whose failure is only logged. -/
def cancel (st : Store) (d : Delivery) (available : Bool) : Option (Store × Call) :=
  if d.stage = .cancelling then
    some (if available then { st with redis := st.redis.cancel d.member } else st, d.goto .notifying)
  else none

/-- `move_to_dlq`: the notification on the DLQ topic, whose failure is only logged. -/
def notify (st : Store) (d : Delivery) (available : Bool) : Option (Store × Call) :=
  if d.stage = .notifying then
    some (if available then { st with dlqTopic := st.dlqTopic ++ [(d.event.id, d.endpoint.id)] }
      else st, d.next)
  else none

end Delivery

inductive TaskAction where
  | resolve
  | select
  | post (result : HttpResult)
  | record
  | schedule (retryAfter : Nat)
  | insertDlq (id : UUID)
  | cancel (available : Bool)
  | notify (available : Bool)

/-- The next step of a call on the record `r`. -/
def Call.step (cfg : Settings) (st : Store) (r : Record Message) :
    Call → TaskAction → Option (Store × Call)
  | .resolving, .resolve => some (st, resolveTargets st.db.toTables r.value)
  | .delivering d, .select => d.select st
  | .delivering d, .post result => d.request st r result
  | .delivering d, .record => d.record st r
  | .delivering d, .schedule retryAfter => d.schedule cfg st retryAfter
  | .delivering d, .insertDlq id => d.insertDlq cfg st id
  | .delivering d, .cancel available => d.cancel st available
  | .delivering d, .notify available => d.notify st available
  | _, _ => none

/-! ## Reading a call -/

theorem deliverNext_eq {event : Event} {n : Nat} {ps : List Endpoint} {d : Delivery}
    (h : deliverNext event n ps = .delivering d) :
    d.event = event ∧ d.attemptNumber = n ∧ d.stage = .checking ∧ d.endpoint :: d.rest = ps := by
  cases ps with
  | nil => cases h
  | cons p ps => cases h; exact ⟨rfl, rfl, rfl, rfl⟩

theorem resolveTargets_eq {db : Tables} {m : Message} {d : Delivery}
    (h : resolveTargets db m = .delivering d) :
    db.getEvent m.eventId = some d.event ∧ d.attemptNumber = m.attempt ∧ d.stage = .checking ∧
      d.endpoint :: d.rest = targets db d.event m := by
  unfold resolveTargets at h
  split at h
  · cases h
  · rename_i event found
    obtain ⟨rfl, hn, hs, ht⟩ := deliverNext_eq h
    exact ⟨found, hn, hs, ht⟩

theorem resolveTargets_ne_resolving {db : Tables} {m : Message} :
    resolveTargets db m ≠ .resolving := by
  unfold resolveTargets
  split
  · simp
  · cases targets db _ m <;> simp [deliverNext]

theorem mem_targets {db : Tables} {event : Event} {m : Message} {p : Endpoint} :
    p ∈ targets db event m ↔
      (∃ endpointId, m.endpointId = some endpointId ∧ db.getEndpoint endpointId = some p ∧
        p.enabled = true) ∨ (m.endpointId = none ∧ p ∈ db.matching event.eventType) := by
  unfold targets
  split <;> rename_i h <;> simp [h]

theorem targets_exist {db : Tables} {event : Event} {m : Message} {p : Endpoint}
    (h : p ∈ targets db event m) : p ∈ db.endpoints := by
  rcases mem_targets.1 h with ⟨_, -, found, -⟩ | ⟨-, hm⟩
  · exact (Tables.getEndpoint_some found).1
  · exact (Tables.mem_matching.1 hm).1

end HookRelay
