import HookRelay.Delivery
import HookRelay.Lib.Lts

/-!
# The system

Every process of a deployment over the shared stores: the API's request handlers, and worker
processes that each run the delivery loop, the retry scheduler and the outbox relay. A step is
what one of them does between two awaits, so a run is an arbitrary interleaving. The pending
topic and the delivery loops are the consumer group of `ConsumerGroup.lean`, whose tasks carry
the state of their `_process_record` call.
-/

namespace HookRelay

/-- `run_outbox_relay` of one worker: asleep, or in the transaction of a batch with the rows left
to publish and the rows published and deleted in it. -/
inductive Relay where
  | idle
  | batch (todo done : List OutboxEntry)

/-- The rows the relay's transaction holds `FOR UPDATE`. -/
def Relay.locked : Relay → List OutboxEntry
  | .idle => []
  | .batch todo done => todo ++ done

/-- `_BATCH_SIZE`. -/
def relayBatch : Nat := 100

/-- `run_scheduler` of one worker: asleep, in the loop over the messages it polled, or with the
first of them published and about to be cancelled. -/
inductive Scheduler where
  | idle
  | due (messages : List Message)
  | cancelling (m : Message) (rest : List Message)

/-- The body of the loop over the polled messages starts anew, or the tick ends. -/
def Scheduler.next : List Message → Scheduler
  | [] => .idle
  | messages => .due messages

/-- A body accepted by `EndpointCreate`. -/
structure EndpointCreate where
  url : String
  description : Option String := none
  eventTypes : List String
  secret : String
  eventTypes_nonempty : eventTypes ≠ [] := by decide
  secret_nonempty : secret ≠ "" := by decide

/-- `Endpoint(**body.model_dump(mode="json"))` with the column default of `enabled`. -/
def EndpointCreate.endpoint (body : EndpointCreate) (id : UUID) : Endpoint where
  id := id
  url := body.url
  description := body.description
  eventTypes := body.eventTypes
  secret := body.secret
  enabled := true

/-- A body accepted by `EndpointUpdate`: each field is absent (`none`), `null` (`some none`) or a
value. -/
structure EndpointUpdate where
  url : Option (Option String) := none
  description : Option (Option String) := none
  eventTypes : Option (Option (List String)) := none
  secret : Option (Option String) := none
  enabled : Option (Option Bool) := none
  eventTypes_nonempty : eventTypes ≠ some (some []) := by decide
  secret_nonempty : secret ≠ some (some "") := by decide

/-- `setattr` of the fields set in the body, then the flush: only `description` may be `null`. -/
def EndpointUpdate.apply (u : EndpointUpdate) (p : Endpoint) : Option Endpoint := do
  let url ← u.url.getD (some p.url)
  let eventTypes ← u.eventTypes.getD (some p.eventTypes)
  let secret ← u.secret.getD (some p.secret)
  let enabled ← u.enabled.getD (some p.enabled)
  some { p with url, description := u.description.getD p.description, eventTypes, secret, enabled }

/-- A body accepted by `EventCreate`. -/
structure EventCreate where
  eventType : String
  idempotencyKey : String
  payload : Json

def EventCreate.event (body : EventCreate) (id : UUID) : Event where
  id := id
  eventType := body.eventType
  idempotencyKey := body.idempotencyKey
  payload := body.payload
  status := .pending

structure State where
  store : Store := {}
  group : ConsumerGroup Message Call := {}
  schedulers : List Scheduler := []
  relays : List Relay := []

inductive RequestAction where
  | publish (partition offset : Nat)
  | delete
  | commit
  | abort

inductive RelayAction where
  | select
  | publish (partition offset : Nat)
  | commit

inductive SchedulerAction where
  | poll (now : Nat)
  | publish (partition offset : Nat)
  | cancel
  | skip

inductive Action where
  | createEndpoint (id : UUID) (body : EndpointCreate)
  | updateEndpoint (id : UUID) (body : EndpointUpdate)
  | deleteEndpoint (id : UUID)
  | ingest (id outboxId : UUID) (body : EventCreate)
  | deleteDlq (id : UUID)
  | retryEvent (id : UUID)
  | replayDlq (id : UUID)
  | request (i : Nat) (a : RequestAction)
  | relay (w : Nat) (a : RelayAction)
  | scheduler (w : Nat) (a : SchedulerAction)
  | loop (a : ConsumerGroup.LoopAction Message)
  | task (i : Nat) (a : TaskAction)
  | finish (i : Nat) (o : Outcome)
  | duplicate (r : Record Message) (partition offset : Nat)

namespace State

/-- The call of task `i`. -/
def call (s : State) (i : Nat) : Option Call := s.group.tasks[i]?.map (·.data)

/-- The delivery the call of task `i` is at. -/
def delivery (s : State) (i : Nat) : Option Delivery := (s.call i).bind (·.delivery)

theorem delivery_eq_some {s : State} {i : Nat} {d : Delivery} :
    s.delivery i = some d ↔ ∃ t, s.group.tasks[i]? = some t ∧ t.data = .delivering d := by
  simp [delivery, call, Option.bind_eq_some_iff]

def setDb (s : State) (db : Database) : State := { s with store := { s.store with db } }

/-- `producer.publish(settings.kafka_topic_pending, m)`; the broker chooses the place. -/
def publish (s : State) (m : Message) (partition offset : Nat) : Option State := do
  let r : Record Message := ⟨partition, offset, m⟩
  let group ← s.group.append r
  some { s with group, store := s.store.log (.published r) }

/-! ## The API -/

def createEndpoint (s : State) (id : UUID) (body : EndpointCreate) : Option State := do
  let db ← s.store.db.insertEndpoint (body.endpoint id)
  some (s.setDb db)

def updateEndpoint (s : State) (id : UUID) (body : EndpointUpdate) : Option State := do
  let p ← s.store.db.getEndpoint id
  let p' ← body.apply p
  some (s.setDb (s.store.db.updateEndpoint id fun _ => p'))

/-- The deletion of the endpoint's dead letters waits for the transactions that hold them. -/
def deleteEndpoint (s : State) (id : UUID) : Option State := do
  let _ ← s.store.db.getEndpoint id
  if s.store.db.dlq.all fun d => d.endpointId ≠ id || !s.store.dlqLocked d.id then
    some (s.setDb (s.store.db.deleteEndpoint id))
  else none

def ingest (s : State) (id outboxId : UUID) (body : EventCreate) : Option State := do
  let db ← s.store.db.insertEvent (body.event id) outboxId
  some (s.setDb db)

/-- `delete_dlq_entry`. -/
def deleteDlq (s : State) (id : UUID) : Option State := do
  let _ ← s.store.db.getDlq id
  if s.store.dlqLocked id then none else some (s.setDb (s.store.db.deleteDlq [id]))

def addRequest (s : State) (kind : RequestKind) (eventId : UUID) : State :=
  { s with store := { s.store with requests := s.store.requests ++ [⟨kind, eventId, .locked⟩] } }

def setRequest (s : State) (i : Nat) (q : Request) : State :=
  { s with store := { s.store with requests := s.store.requests.set i q } }

/-- `retry_event` up to its row lock. -/
def retryEvent (s : State) (id : UUID) : Option State := do
  let event ← s.store.db.getEvent id
  if s.store.eventLocked id then none else some (s.addRequest .retry event.id)

/-- `replay_dlq_entry` up to its row lock. -/
def replayDlq (s : State) (id : UUID) : Option State := do
  let entry ← s.store.db.getDlq id
  if s.store.dlqLocked id then none else some (s.addRequest (.replay id) entry.eventId)

/-- The rows a request's `DELETE` removes: all dead letters of the event, or the one entry. -/
def deletes (db : Tables) (q : Request) : List UUID :=
  match q.kind with
  | .retry => (db.dlq.filter (·.eventId = q.eventId)).map (·.id)
  | .replay dlqId => [dlqId]

/-- The rest of a `retry_event` or `replay_dlq_entry` request: the publish, the `DELETE` (which
waits for rows another transaction holds; a replay's is flushed by the commit), and the commit
or the rollback. -/
def requestStep (s : State) (i : Nat) (a : RequestAction) : Option State := do
  let q ← s.store.requests[i]?
  match a, q.stage with
  | .publish partition offset, .locked => do
    let s ← s.publish (.fanOut q.eventId) partition offset
    some (s.setRequest i { q with stage := .published ⟨partition, offset, .fanOut q.eventId⟩ })
  | .delete, .published r =>
    let rows := deletes s.store.db.toTables q
    if q.kind ≠ .retry ∨ ∀ id ∈ rows, s.store.dlqLocked id = false then
      some (s.setRequest i { q with stage := .deleted r rows })
    else none
  | .commit, .deleted r rows =>
    let s := s.setDb ((s.store.db.deleteDlq rows).setStatus q.eventId .pending)
    some (s.setRequest i { q with stage := .committed r rows })
  | .abort, _ => if q.isOpen then some (s.setRequest i { q with stage := .aborted }) else none
  | _, _ => none

/-! ## The outbox relay -/

def setRelay (s : State) (w : Nat) (relay : Relay) : State :=
  { s with relays := s.relays.set w relay }

/-- The rows `SELECT … FOR UPDATE SKIP LOCKED` returns. -/
def selectable (s : State) : List OutboxEntry :=
  (s.store.db.outbox.filter fun o =>
    s.relays.all fun relay => relay.locked.all (·.id ≠ o.id)).take relayBatch

/-- `_relay_batch`: the select, the publish and delete of the next row, and the commit. -/
def relayStep (s : State) (w : Nat) (a : RelayAction) : Option State := do
  let relay ← s.relays[w]?
  match a, relay with
  | .select, .idle =>
    match s.selectable with
    | [] => some s
    | rows => some (s.setRelay w (.batch rows []))
  | .publish partition offset, .batch (entry :: todo) done => do
    let s ← s.publish (.fanOut entry.eventId) partition offset
    some (s.setRelay w (.batch todo (done ++ [entry])))
  | .commit, .batch [] done =>
    some ((s.setDb (s.store.db.deleteOutbox (done.map (·.id)))).setRelay w .idle)
  | _, _ => none

/-! ## The retry scheduler -/

def setScheduler (s : State) (w : Nat) (scheduler : Scheduler) : State :=
  { s with schedulers := s.schedulers.set w scheduler }

/-- One tick of `run_scheduler`: the poll, then for each message the publish and the cancel. A
message without endpoint is skipped. -/
def schedulerStep (s : State) (w : Nat) (a : SchedulerAction) : Option State := do
  let scheduler ← s.schedulers[w]?
  match a, scheduler with
  | .poll now, .idle => some (s.setScheduler w (.next (s.store.redis.pollDue now)))
  | .publish partition offset, .due (m :: rest) =>
    if m.endpointId.isSome then do
      let s ← s.publish m partition offset
      some (s.setScheduler w (.cancelling m rest))
    else none
  | .cancel, .cancelling m rest => do
    let endpointId ← m.endpointId
    let redis := s.store.redis.cancel ⟨m.eventId, endpointId, m.attempt⟩
    some ({ s with store := { s.store with redis } }.setScheduler w (.next rest))
  | .skip, .due (m :: rest) =>
    if m.endpointId.isNone then some (s.setScheduler w (.next rest)) else none
  | _, _ => none

/-! ## The delivery loop -/

variable (cfg : Settings)

/-- A step of the consumer group. A process that starts or dies takes its scheduler and its relay
with it: the batch it polled is forgotten and the relay's transaction rolls back. -/
def loopStep (s : State) (a : ConsumerGroup.LoopAction Message) : Option State := do
  let group ← s.group.loopStep cfg.workerConcurrency (fun _ => .resolving) a
  let s := { s with group }
  some (match a with
    | .spawn => { s with schedulers := s.schedulers ++ [.idle], relays := s.relays ++ [.idle] }
    | .crash w => (s.setScheduler w .idle).setRelay w .idle
    | _ => s)

/-- The call of task `i` takes a step. -/
def taskStep (s : State) (i : Nat) (a : TaskAction) : Option State := do
  let t ← s.group.tasks[i]?
  let (store, call) ← t.data.step cfg s.store t.record a
  let group ← s.group.advance i call
  some { s with store, group }

/-- The call of task `i` ends: normally once every target is done, or at any time by an exception
or a cancellation. A published message is never a poison pill. -/
def finish (s : State) (i : Nat) (o : Outcome) : Option State := do
  let t ← s.group.tasks[i]?
  let possible : Bool := match o, t.data with
    | .returned, .finished => true
    | .raised, _ => true
    | .cancelled, _ => true
    | _, _ => false
  if possible then
    let group ← s.group.finish i o
    some { s with group }
  else none

/-- A record of the pending topic appears there a second time. -/
def duplicate (s : State) (r : Record Message) (partition offset : Nat) : Option State :=
  if r ∈ s.group.log then s.publish r.value partition offset else none

def step (s : State) : Action → Option State
  | .createEndpoint id body => s.createEndpoint id body
  | .updateEndpoint id body => s.updateEndpoint id body
  | .deleteEndpoint id => s.deleteEndpoint id
  | .ingest id outboxId body => s.ingest id outboxId body
  | .deleteDlq id => s.deleteDlq id
  | .retryEvent id => s.retryEvent id
  | .replayDlq id => s.replayDlq id
  | .request i a => s.requestStep i a
  | .relay w a => s.relayStep w a
  | .scheduler w a => s.schedulerStep w a
  | .loop a => s.loopStep cfg a
  | .task i a => s.taskStep cfg i a
  | .finish i o => s.finish i o
  | .duplicate r partition offset => s.duplicate r partition offset

end State

/-- A deployment before its first request: empty stores and no worker. -/
def initial : State := {}

/-- The states some interleaving reaches. -/
abbrev Reachable (cfg : Settings) (s : State) : Prop :=
  Lts.Reachable (State.step cfg) Lts.Any initial s

/-! ## A small deployment

One endpoint, one event, and a worker whose relay has published the event. The concrete runs of
the later modules start with it. -/

def UUID.ofNat (n : Nat) : UUID := ⟨BitVec.ofNat 128 n⟩

def sampleEndpoint : EndpointCreate where
  url := "https://example.com/hook"
  eventTypes := ["order.created"]
  secret := "secret"

def sampleEvent : EventCreate where
  eventType := "order.created"
  idempotencyKey := "order-1"
  payload := .obj []

/-- The record at an offset of the one partition used. -/
def sampleRecord (offset : Nat) (m : Message) : Record Message := ⟨0, offset, m⟩

/-- The endpoint has identifier 1 and the event identifier 2. -/
def samplePublished : List Action :=
  [.createEndpoint (.ofNat 1) sampleEndpoint, .ingest (.ofNat 2) (.ofNat 3) sampleEvent,
    .loop .spawn, .relay 0 .select, .relay 0 (.publish 0 0), .relay 0 .commit,
    .loop (.assign 0 0)]

/-- Worker `w` fetches the records and starts a call on each. -/
def handOut (w : Nat) (records : List (Record Message)) : List Action :=
  .loop (.getmany w records) :: records.map fun _ => .loop (.start w)

/-- The call of task `i` delivers to its next endpoint up to the insert of the attempt row. -/
def attempt (i code : Nat) : List Action :=
  [.task i .select, .task i (.post (.response code [])), .task i .record]

/-- The first delivery is answered with 404 and the pair is dead-lettered under identifier 4. -/
def sampleDeadLetter : List Action :=
  samplePublished ++ handOut 0 [sampleRecord 0 (.fanOut (.ofNat 2))] ++ [.task 0 .resolve] ++
    attempt 0 404 ++
    [.task 0 (.insertDlq (.ofNat 4)), .task 0 (.cancel true), .task 0 (.notify true),
      .finish 0 .returned]

end HookRelay
