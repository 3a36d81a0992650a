import HookRelay.Evolution
import HookRelay.Lib.Slots

/-!
# `ingest_event`, statement by statement

`System` takes `ingest_event` as one step. Here its transaction is cut at its awaits, under READ
COMMITTED: the `INSERT … ON CONFLICT DO NOTHING RETURNING`, which waits for an open transaction that
has inserted the key, the `SELECT` of the event, the flush of the outbox row and the commit. Any
number of requests run among each other and among all other steps of the deployment, and each may
fail at any point before its commit.

Every state of the deployment that is reached so, the system reaches with `ingest_event` as one step.
-/

namespace HookRelay

/-! ## Rows -/

/-- `INSERT INTO events` of one row. -/
def Tables.insertEventRow (t : Tables) (e : Event) : Option Tables :=
  if e.id ∈ t.issued ∨ e.idempotencyKey ∈ t.events.map (·.idempotencyKey) then none
  else some { t with events := t.events ++ [e], issued := e.id :: t.issued }

/-- `INSERT INTO outbox` of one row. -/
def Tables.insertOutboxRow (t : Tables) (o : OutboxEntry) : Option Tables :=
  if o.id ∈ t.issued ∨ o.eventId ∈ t.outbox.map (·.eventId) ∨ o.eventId ∉ t.eventIds then none
  else some { t with outbox := t.outbox ++ [o], issued := o.id :: t.issued }

/-- The commit of a transaction that has inserted the rows. -/
def Tables.commitRows (t : Tables) (event : Option Event) (outbox : Option OutboxEntry) :
    Option Tables := do
  let t ← event.elim (some t) t.insertEventRow
  outbox.elim (some t) t.insertOutboxRow

/-- The event is stored, under whatever status. -/
def Tables.Stores (t : Tables) (e : Event) : Prop := ∃ status, { e with status } ∈ t.events

/-- The idempotency key is taken by a committed event. -/
def Tables.TakesKey (t : Tables) (key : String) : Prop := key ∈ t.events.map (·.idempotencyKey)

section Rows

variable {t t' : Tables} {e : Event} {o : OutboxEntry}

theorem Tables.Valid.insertEventRow (v : t.Valid) (h : t.insertEventRow e = some t') :
    t'.Valid := by
  simp only [Tables.insertEventRow, Option.ite_none_left_eq_some, not_or, Option.some.injEq] at h
  obtain ⟨⟨fresh, keyNew⟩, rfl⟩ := h
  have grow : ∀ {x}, x ∈ t.eventIds → x ∈ (t.events ++ [e]).map (·.id) := fun hx => by
    rw [List.map_append]
    exact List.mem_append_left _ hx
  have wider : ∀ {x}, x ∈ t.issued → x ∈ e.id :: t.issued := List.mem_cons_of_mem _
  exact {
    v with
    endpoints_issued := fun p hp => wider (v.endpoints_issued p hp)
    events_pkey := nodup_map_snoc v.events_pkey fun hm => by
      obtain ⟨x, hx, same⟩ := List.mem_map.1 hm
      exact fresh (same ▸ v.events_issued x hx)
    events_issued := fun x hx => by
      rcases List.mem_append.1 hx with hx | hx
      · exact wider (v.events_issued x hx)
      · rw [List.mem_singleton.1 hx]
        exact List.mem_cons_self
    events_idempotency_key := nodup_map_snoc v.events_idempotency_key keyNew
    attempts_event_fkey := fun a ha => grow (v.attempts_event_fkey a ha)
    dlq_issued := fun d hd => wider (v.dlq_issued d hd)
    dlq_event_fkey := fun d hd => grow (v.dlq_event_fkey d hd)
    outbox_issued := fun o ho => wider (v.outbox_issued o ho)
    outbox_event_fkey := fun o ho => grow (v.outbox_event_fkey o ho) }

theorem Tables.Valid.insertOutboxRow (v : t.Valid) (h : t.insertOutboxRow o = some t') :
    t'.Valid := by
  simp only [Tables.insertOutboxRow, Option.ite_none_left_eq_some, not_or, not_not,
    Option.some.injEq] at h
  obtain ⟨⟨fresh, eventNew, event⟩, rfl⟩ := h
  have wider : ∀ {x}, x ∈ t.issued → x ∈ o.id :: t.issued := List.mem_cons_of_mem _
  exact {
    v with
    endpoints_issued := fun p hp => wider (v.endpoints_issued p hp)
    events_issued := fun x hx => wider (v.events_issued x hx)
    dlq_issued := fun d hd => wider (v.dlq_issued d hd)
    outbox_pkey := nodup_map_snoc v.outbox_pkey fun hm => by
      obtain ⟨x, hx, same⟩ := List.mem_map.1 hm
      exact fresh (same ▸ v.outbox_issued x hx)
    outbox_issued := fun x hx => by
      rcases List.mem_append.1 hx with hx | hx
      · exact wider (v.outbox_issued x hx)
      · rw [List.mem_singleton.1 hx]
        exact List.mem_cons_self
    outbox_event_id := nodup_map_snoc v.outbox_event_id eventNew
    outbox_event_fkey := fun x hx => by
      rcases List.mem_append.1 hx with hx | hx
      · exact v.outbox_event_fkey x hx
      · rw [List.mem_singleton.1 hx]
        exact event }

theorem Tables.Valid.commitRows {event : Option Event} {outbox : Option OutboxEntry} (v : t.Valid)
    (h : t.commitRows event outbox = some t') : t'.Valid := by
  simp only [Tables.commitRows, Option.bind_eq_bind, Option.bind_eq_some_iff] at h
  obtain ⟨t₁, h₁, h₂⟩ := h
  have v₁ : t₁.Valid := by
    cases event with
    | none => exact Option.some.inj h₁ ▸ v
    | some e => exact v.insertEventRow h₁
  cases outbox with
  | none => exact Option.some.inj h₂ ▸ v₁
  | some o => exact v₁.insertOutboxRow h₂

/-- Both rows of an event whose identifiers and key are new are inserted as `ingest_event` in one
step inserts them. -/
theorem Tables.commitRows_eq {oid : UUID} (v : t.Valid) (fresh : e.id ∉ t.issued)
    (free : ¬ t.TakesKey e.idempotencyKey) (freshOutbox : oid ∉ t.issued) (ne : e.id ≠ oid) :
    t.commitRows (some e) (some ⟨oid, e.id⟩) = t.insertEvent e oid := by
  have unrouted : ∀ o ∈ t.outbox, ¬ o.eventId = e.id := fun o ho same => by
    obtain ⟨x, hx, hid⟩ := Tables.mem_eventIds.1 (v.outbox_event_fkey o ho)
    exact fresh (same ▸ hid ▸ v.events_issued x hx)
  rw [Tables.TakesKey] at free
  simp [Tables.commitRows, Tables.insertEventRow, Tables.insertOutboxRow, Tables.insertEvent, fresh,
    free, freshOutbox, ne, ne.symm, Tables.eventIds]
  exact unrouted

end Rows

def Database.commitRows (db : Database) (event : Option Event) (outbox : Option OutboxEntry) :
    Option Database :=
  db.exec (·.commitRows event outbox) .commitRows

/-! ## Requests -/

/-- How far an `ingest_event` request has come: the `INSERT` ran, with the identifier it returned;
the `SELECT` ran; the outbox row is flushed; the event was returned; the `SELECT` found no row or
several; the request failed and was rolled back. -/
inductive IngestStage where
  | arrived
  | executed (insertedId : Option UUID)
  | selected (insertedId : Option UUID) (event : Event)
  | flushed (event : Event)
  | returned (event : Event)
  | noResult
  | failed

/-- A request with the rows its transaction has inserted and not committed. -/
structure Ingest where
  body : EventCreate
  stage : IngestStage := .arrived
  event : Option Event := none
  outbox : Option OutboxEntry := none

/-- The identifiers of the request's uncommitted rows. -/
def Ingest.ids (q : Ingest) : List UUID :=
  (q.event.map (·.id)).toList ++ (q.outbox.map (·.id)).toList

def Ingest.isOpen (q : Ingest) : Bool :=
  match q.stage with
  | .arrived | .executed _ | .selected _ _ | .flushed _ => true
  | .returned _ | .noResult | .failed => false

/-- The rows a committed `ingest_event` transaction has inserted. -/
structure IngestCommit where
  event : Option Event
  outbox : Option OutboxEntry

/-- A deployment and its `ingest_event` requests. `commits` records their committed transactions,
latest first; no step reads it. -/
structure Ingestion where
  system : State
  requests : List Ingest := []
  commits : List IngestCommit := []

def Ingestion.initial : Ingestion := { system := HookRelay.initial }

inductive IngestAction where
  | insert (id : UUID)
  | select
  | flush (outboxId : UUID)
  | commit
  | abort

/-- The identifiers `gen_random_uuid()` returns in the step. -/
def Action.draws : Action → List UUID
  | .createEndpoint id _ => [id]
  | .ingest id outboxId _ => [id, outboxId]
  | .task _ (.insertDlq id) => [id]
  | _ => []

def Action.ingests : Action → Bool
  | .ingest _ _ _ => true
  | _ => false

namespace Ingestion

inductive Action where
  | request (body : EventCreate)
  | ingest (i : Nat) (a : IngestAction)
  | other (a : HookRelay.Action)

/-- The identifiers of all uncommitted rows. -/
def reserved (st : Ingestion) : List UUID := st.requests.flatMap (·.ids)

def tables (st : Ingestion) : Tables := st.system.store.db.toTables

/-- `gen_random_uuid()` may return the identifier: it never did. -/
def fresh (st : Ingestion) (id : UUID) : Bool := id ∉ st.tables.issued && id ∉ st.reserved

def setRequest (st : Ingestion) (i : Nat) (q : Ingest) : Ingestion :=
  { st with requests := st.requests.set i q }

/-- Another open transaction has inserted the key. -/
def keyPending (st : Ingestion) (key : String) : Bool :=
  st.requests.any fun q => q.event.any (·.idempotencyKey = key)

/-- `INSERT … ON CONFLICT DO NOTHING RETURNING`: it waits for a pending key, and returns no row when
the key is taken. -/
def insert (st : Ingestion) (i : Nat) (q : Ingest) (id : UUID) : Option Ingestion :=
  if st.keyPending q.body.idempotencyKey then none
  else if q.body.idempotencyKey ∈ st.tables.events.map (·.idempotencyKey) then
    some (st.setRequest i { q with stage := .executed none })
  else if st.fresh id then
    some (st.setRequest i { q with stage := .executed (some id), event := some (q.body.event id) })
  else none

/-- The rows with the key that the transaction sees: the committed ones and its own. -/
def visible (st : Ingestion) (q : Ingest) : List Event :=
  (st.tables.events ++ q.event.toList).filter (·.idempotencyKey = q.body.idempotencyKey)

/-- The `SELECT` and `scalar_one()`, which raises unless there is exactly one row. -/
def select (st : Ingestion) (i : Nat) (q : Ingest) (insertedId : Option UUID) : Ingestion :=
  match st.visible q with
  | [event] => st.setRequest i { q with stage := .selected insertedId event }
  | _ => st.setRequest i { body := q.body, stage := .noResult }

/-- The flush of `db.add(OutboxEntry(event_id=event.id))`, when the event was inserted. It raises
when the event has an outbox row or is not there. -/
def flush (st : Ingestion) (i : Nat) (q : Ingest) (insertedId : Option UUID) (event : Event)
    (outboxId : UUID) : Option Ingestion :=
  match insertedId with
  | none => some (st.setRequest i { q with stage := .flushed event })
  | some _ =>
    if st.fresh outboxId then
      if event.id ∈ st.tables.outbox.map (·.eventId) ∨
          event.id ∉ (st.tables.events ++ q.event.toList).map (·.id) then
        some (st.setRequest i { body := q.body, stage := .failed })
      else
        some (st.setRequest i
          { q with stage := .flushed event, outbox := some ⟨outboxId, event.id⟩ })
    else none

/-- The commit, after which the event is returned. -/
def commit (st : Ingestion) (i : Nat) (q : Ingest) (event : Event) : Option Ingestion := do
  let db ← st.system.store.db.commitRows q.event q.outbox
  some {
    system := st.system.setDb db
    requests := st.requests.set i { body := q.body, stage := .returned event }
    commits := ⟨q.event, q.outbox⟩ :: st.commits }

def ingestStep (st : Ingestion) (i : Nat) (a : IngestAction) : Option Ingestion := do
  let q ← st.requests[i]?
  match a, q.stage with
  | .insert id, .arrived => st.insert i q id
  | .select, .executed insertedId => some (st.select i q insertedId)
  | .flush outboxId, .selected insertedId event => st.flush i q insertedId event outboxId
  | .commit, .flushed event => st.commit i q event
  | .abort, _ =>
    if q.isOpen then some (st.setRequest i { body := q.body, stage := .failed }) else none
  | _, _ => none

/-- A step of the rest of the deployment. -/
def otherStep (cfg : Settings) (st : Ingestion) (a : HookRelay.Action) : Option Ingestion :=
  if a.ingests || a.draws.any (· ∈ st.reserved) then none
  else do
    let system ← st.system.step cfg a
    some { st with system }

def step (cfg : Settings) (st : Ingestion) : Action → Option Ingestion
  | .request body => some { st with requests := st.requests ++ [{ body }] }
  | .ingest i a => st.ingestStep i a
  | .other a => st.otherStep cfg a

end Ingestion

/-! ## What the rest of the deployment leaves alone -/

section Others

variable {cfg : Settings} {s s' : State} {a : Action} {t : Tables} {e : Event}

/-- Only `gen_random_uuid()` issues identifiers. -/
theorem Transition.issued_cases (h : Transition cfg s a s') {x : UUID}
    (hx : x ∈ s'.store.db.issued) : x ∈ s.store.db.issued ∨ x ∈ a.draws := by
  cases h with
  | createEndpoint _ tables =>
    rw [State.setDb, tables] at hx
    exact (List.mem_cons.1 hx).symm.imp_right fun same => List.mem_singleton.2 same
  | ingest _ _ tables =>
    rw [State.setDb, tables] at hx
    simp only [List.mem_cons] at hx
    simp only [Action.draws, List.mem_cons, List.not_mem_nil, or_false]
    tauto
  | @task _ _ t _ _ _ moved =>
    obtain ⟨worker, record, c⟩ := t
    cases moved with
    | record _ _ _ _ tables =>
      rw [Store.log, tables] at hx
      exact .inl hx
    | insertDlq _ _ _ _ _ _ tables =>
      rw [tables] at hx
      exact (List.mem_cons.1 hx).symm.imp_right fun same => List.mem_singleton.2 same
    | _ => exact .inl hx
  | _ => exact .inl hx

/-- Besides `ingest_event`, the rows of events change only in their status. -/
theorem Transition.events_cases (h : Transition cfg s a s') (other : a.ingests = false) :
    s'.store.db.events = s.store.db.events ∨
      ∃ id status, s'.store.db.events = (s.store.db.setStatus id status).events := by
  cases h with
  | createEndpoint _ tables =>
    left
    rw [State.setDb, tables]
  | ingest | ingestKnown => cases other
  | requestCommit => exact .inr ⟨_, .pending, rfl⟩
  | @task _ _ t _ _ _ moved =>
    left
    obtain ⟨worker, record, c⟩ := t
    cases moved with
    | record _ _ _ _ tables => rw [Store.log, tables]
    | insertDlq _ _ _ _ _ _ tables => rw [tables]
    | _ => rfl
  | _ => exact .inl rfl

theorem Tables.stores_of_mem (h : e ∈ t.events) : t.Stores e := ⟨e.status, h⟩

theorem Tables.stores_setStatus {id : UUID} {status : EventStatus} (h : t.Stores e) :
    (t.setStatus id status).Stores e := by
  obtain ⟨old, h⟩ := h
  by_cases same : e.id = id
  · exact ⟨status, List.mem_map.2 ⟨_, h, by simp [same]⟩⟩
  · exact ⟨old, List.mem_map.2 ⟨_, h, by simp [same]⟩⟩

theorem Tables.takesKey_setStatus {id : UUID} {status : EventStatus} {key : String} :
    (t.setStatus id status).TakesKey key ↔ t.TakesKey key := by
  simp only [Tables.TakesKey, Tables.setStatus, List.map_map]
  rw [List.map_congr_left fun e _ => ?_]
  simp only [Function.comp]
  split <;> rfl

/-- What `ingest_event` relies on is kept by every other step. -/
theorem Transition.stores_mono (h : Transition cfg s a s') (other : a.ingests = false)
    (stored : s.store.db.Stores e) : s'.store.db.Stores e := by
  rcases h.events_cases other with same | ⟨id, status, same⟩
  · rwa [Tables.Stores, same]
  · rw [Tables.Stores, same]
    exact Tables.stores_setStatus stored

theorem Transition.takesKey_iff (h : Transition cfg s a s') (other : a.ingests = false)
    {key : String} : s'.store.db.TakesKey key ↔ s.store.db.TakesKey key := by
  rcases h.events_cases other with same | ⟨id, status, same⟩
  · rw [Tables.TakesKey, same, Tables.TakesKey]
  · rw [Tables.TakesKey, same]
    exact Tables.takesKey_setStatus

end Others

/-! ## What a request looks like -/

/-- The request's event row would be the first with its identifier and its key. -/
structure Tables.Admits (t : Tables) (body : EventCreate) (id : UUID) : Prop where
  fresh : id ∉ t.issued
  free : ¬ t.TakesKey body.idempotencyKey

/-- The shapes of a request. Its uncommitted event row is its own and new to the tables; without
one, its event is stored. No request is at `noResult`. -/
inductive Ingest.Sound (t : Tables) : Ingest → Prop where
  | arrived {body : EventCreate} : Sound t { body }
  | inserted {body : EventCreate} {id : UUID} (own : t.Admits body id) :
      Sound t ⟨body, .executed (some id), some (body.event id), none⟩
  | conflicted {body : EventCreate} (taken : t.TakesKey body.idempotencyKey) :
      Sound t ⟨body, .executed none, none, none⟩
  | selected {body : EventCreate} {id : UUID} (own : t.Admits body id) :
      Sound t ⟨body, .selected (some id) (body.event id), some (body.event id), none⟩
  | found {body : EventCreate} {e : Event} (key : e.idempotencyKey = body.idempotencyKey)
      (stored : t.Stores e) : Sound t ⟨body, .selected none e, none, none⟩
  | flushed {body : EventCreate} {id oid : UUID} (own : t.Admits body id) (fresh : oid ∉ t.issued)
      (ne : id ≠ oid) : Sound t ⟨body, .flushed (body.event id), some (body.event id), some ⟨oid, id⟩⟩
  | unflushed {body : EventCreate} {e : Event} (key : e.idempotencyKey = body.idempotencyKey)
      (stored : t.Stores e) : Sound t ⟨body, .flushed e, none, none⟩
  | returned {body : EventCreate} {e : Event} (key : e.idempotencyKey = body.idempotencyKey)
      (stored : t.Stores e) : Sound t ⟨body, .returned e, none, none⟩
  | failed {body : EventCreate} : Sound t { body, stage := .failed }

/-- The uncommitted rows of the requests have different keys and identifiers. -/
structure Ingest.Apart (q q' : Ingest) : Prop where
  keys : ∀ e e', q.event = some e → q'.event = some e' → e.idempotencyKey ≠ e'.idempotencyKey
  ids : ∀ x ∈ q.ids, x ∉ q'.ids

/-- The transaction has inserted an event with its outbox row, or nothing. -/
inductive IngestCommit.Sound (t : Tables) : IngestCommit → Prop where
  | known : Sound t ⟨none, none⟩
  | new {e : Event} {oid : UUID} (stored : t.Stores e) : Sound t ⟨some e, some ⟨oid, e.id⟩⟩

namespace Ingestion

/-- The identifiers of the events that were inserted. -/
def ingested (st : Ingestion) : List UUID := (st.commits.filterMap (·.event)).map (·.id)

structure Inv (st : Ingestion) : Prop where
  sound : ∀ q ∈ st.requests, q.Sound st.tables
  apart : Slots.Apart Ingest.Apart st.requests
  commits : ∀ c ∈ st.commits, c.Sound st.tables
  once : st.ingested.Nodup
  complete : ∀ e ∈ st.tables.events, e.id ∈ st.ingested
  issued : ∀ x ∈ st.ingested, x ∈ st.tables.issued

end Ingestion

section Shapes

variable {t t' : Tables} {q q' : Ingest} {c : IngestCommit}

/-- A request keeps its shape when stored events stay and its own row stays new. -/
theorem Ingest.Sound.mono (h : q.Sound t) (stores : ∀ e, t.Stores e → t'.Stores e)
    (keys : ∀ k, t.TakesKey k → t'.TakesKey k) (ids : ∀ x ∈ q.ids, x ∉ t.issued → x ∉ t'.issued)
    (free : ∀ e, q.event = some e → ¬ t.TakesKey e.idempotencyKey →
      ¬ t'.TakesKey e.idempotencyKey) : q.Sound t' := by
  have admits : ∀ {body : EventCreate} {id : UUID}, id ∈ q.ids → q.event = some (body.event id) →
      t.Admits body id → t'.Admits body id := fun hid he own =>
    ⟨ids _ hid own.fresh, free _ he own.free⟩
  cases h with
  | arrived => exact .arrived
  | inserted own => exact .inserted (admits (List.mem_singleton_self _) rfl own)
  | conflicted taken => exact .conflicted (keys _ taken)
  | selected own => exact .selected (admits (List.mem_singleton_self _) rfl own)
  | found key stored => exact .found key (stores _ stored)
  | flushed own fresh ne =>
    refine .flushed (admits List.mem_cons_self rfl own) (ids _ ?_ fresh) ne
    exact List.mem_append_right _ (List.mem_singleton_self _)
  | unflushed key stored => exact .unflushed key (stores _ stored)
  | returned key stored => exact .returned key (stores _ stored)
  | failed => exact .failed

theorem IngestCommit.Sound.mono (h : c.Sound t) (stores : ∀ e, t.Stores e → t'.Stores e) :
    c.Sound t' := by
  cases h with
  | known => exact .known
  | new stored => exact .new (stores _ stored)

theorem Ingest.Apart.symm (h : q.Apart q') : q'.Apart q where
  keys e e' he he' := (h.keys e' e he' he).symm
  ids x hx hx' := h.ids x hx' hx

/-- A request that holds no more rows than before keeps apart. -/
theorem Ingest.Apart.of_subset {p : Ingest} (h : q.Apart p)
    (event : ∀ e, q'.event = some e → q.event = some e) (ids : ∀ x ∈ q'.ids, x ∈ q.ids) :
    q'.Apart p where
  keys e e' he he' := h.keys e e' (event e he) he'
  ids x hx := h.ids x (ids x hx)

end Shapes

/-! ## The steps of a request -/

section Steps

variable {st st' : Ingestion} {i : Nat} {q : Ingest}

/-- The one element with a value that no two share. -/
theorem filter_eq_singleton {α β : Type*} [DecidableEq β] {f : α → β} {l : List α}
    (h : (l.map f).Nodup) {a : α} (ha : a ∈ l) : l.filter (fun x => f x = f a) = [a] := by
  induction l with
  | nil => cases ha
  | cons b l ih =>
    rw [List.map_cons, List.nodup_cons] at h
    rcases List.mem_cons.1 ha with rfl | ha
    · have rest : l.filter (fun x => f x = f a) = [] := by
        refine List.filter_eq_nil_iff.2 fun x hx same => h.1 ?_
        rw [← of_decide_eq_true same]
        exact List.mem_map_of_mem hx
      rw [List.filter_cons_of_pos (by simp), rest]
    · have ne : f b ≠ f a := fun same => h.1 (same ▸ List.mem_map_of_mem ha)
      rw [List.filter_cons_of_neg (by simpa using ne), ih h.2 ha]

namespace Ingestion

theorem Inv.setRequest {q' : Ingest} (h : Inv st) (sound : q'.Sound st.tables)
    (apart : ∀ j p, j ≠ i → st.requests[j]? = some p → q'.Apart p) : Inv (st.setRequest i q') :=
  { h with
    sound := fun p hp => (List.mem_or_eq_of_mem_set hp).elim (h.sound p) fun same => same ▸ sound
    apart := h.apart.set fun j p ne hp => ⟨apart j p ne hp, (apart j p ne hp).symm⟩ }

/-- A request that changes its stage and adds no row. -/
theorem Inv.restage {q' : Ingest} (h : Inv st) (found : st.requests[i]? = some q)
    (sound : q'.Sound st.tables) (event : ∀ e, q'.event = some e → q.event = some e)
    (ids : ∀ x ∈ q'.ids, x ∈ q.ids) : Inv (st.setRequest i q') :=
  h.setRequest sound fun j p ne hp => (h.apart i j q p ne.symm found hp).of_subset event ids

theorem reserved_of_mem {p : Ingest} {j : Nat} (hp : st.requests[j]? = some p) {x : UUID}
    (hx : x ∈ p.ids) : x ∈ st.reserved :=
  List.mem_flatMap.2 ⟨p, List.mem_of_getElem? hp, hx⟩

theorem fresh_iff {id : UUID} : st.fresh id = true ↔ id ∉ st.tables.issued ∧ id ∉ st.reserved := by
  simp [fresh]

theorem keyPending_of_mem {p : Ingest} {j : Nat} (hp : st.requests[j]? = some p) {e : Event}
    (he : p.event = some e) : st.keyPending e.idempotencyKey = true :=
  List.any_eq_true.2 ⟨p, List.mem_of_getElem? hp, by simp [he]⟩

/-- An event row that is inserted has a key that no other request has inserted. -/
theorem Inv.insert {id : UUID} (h : Inv st) (found : st.requests[i]? = some q)
    (arrived : q.stage = .arrived) (step : st.insert i q id = some st') : Inv st' := by
  have sound := h.sound q (List.mem_of_getElem? found)
  cases sound <;> cases arrived
  unfold Ingestion.insert at step
  split at step
  · cases step
  rename_i notPending
  split at step
  · rename_i taken
    cases step
    exact h.restage found (.conflicted taken) (fun _ he => he) fun _ hx => hx
  rename_i free
  simp only [Option.ite_none_right_eq_some, Option.some.injEq] at step
  obtain ⟨fresh, rfl⟩ := step
  obtain ⟨unissued, unreserved⟩ := fresh_iff.1 fresh
  refine h.setRequest (.inserted ⟨unissued, free⟩) fun j p ne hp => ⟨?_, ?_⟩
  · rintro _ e' ⟨⟩ he' same
    have pending := keyPending_of_mem hp he'
    rw [← same] at pending
    exact notPending pending
  · intro x hx hx'
    cases List.mem_singleton.1 hx
    exact unreserved (reserved_of_mem hp hx')

/-- The `SELECT` finds the request's own event or the one committed event with the key. -/
theorem Inv.select {insertedId : Option UUID} (h : Inv st) (found : st.requests[i]? = some q)
    (executed : q.stage = .executed insertedId) : Inv (st.select i q insertedId) := by
  have sound := h.sound q (List.mem_of_getElem? found)
  have v : st.tables.Valid := st.system.store.db.valid
  cases sound <;> cases executed
  case inserted body id own =>
    have others : st.tables.events.filter (·.idempotencyKey = body.idempotencyKey) = [] :=
      List.filter_eq_nil_iff.2 fun e he same =>
        own.free (of_decide_eq_true same ▸ List.mem_map_of_mem he)
    have visible : st.visible ⟨body, .executed (some id), some (body.event id), none⟩ =
        [body.event id] := by
      simp [Ingestion.visible, others, EventCreate.event]
    rw [Ingestion.select, visible]
    exact h.restage found (.selected own) (fun _ he => he) fun _ hx => hx
  case conflicted body taken =>
    obtain ⟨e, he, key⟩ := List.mem_map.1 taken
    have visible : st.visible ⟨body, .executed none, none, none⟩ = [e] := by
      have := filter_eq_singleton v.events_idempotency_key he
      rw [key] at this
      simpa [Ingestion.visible] using this
    rw [Ingestion.select, visible]
    exact h.restage found (.found key (Tables.stores_of_mem he)) (fun _ he => he) fun _ hx => hx

theorem Inv.flush {insertedId : Option UUID} {event : Event} {outboxId : UUID} (h : Inv st)
    (found : st.requests[i]? = some q) (selected : q.stage = .selected insertedId event)
    (step : st.flush i q insertedId event outboxId = some st') : Inv st' := by
  have sound := h.sound q (List.mem_of_getElem? found)
  cases sound <;> cases selected
  case found key stored =>
    cases step
    exact h.restage found (.unflushed key stored) (fun _ he => he) fun _ hx => hx
  case selected body id own =>
    simp only [Ingestion.flush, Option.ite_none_right_eq_some] at step
    obtain ⟨fresh, step⟩ := step
    obtain ⟨unissued, unreserved⟩ := fresh_iff.1 fresh
    split at step
    · cases step
      exact h.restage found .failed (by rintro _ ⟨⟩) fun _ hx => by cases hx
    · cases step
      have mine : id ∈ st.reserved := reserved_of_mem found (List.mem_singleton_self _)
      refine h.setRequest (.flushed own unissued fun same => unreserved (same ▸ mine)) ?_
      intro j p ne hp
      have apart := h.apart i j _ p ne.symm found hp
      refine ⟨apart.keys, fun x hx hx' => ?_⟩
      rcases List.mem_append.1 hx with hx | hx
      · exact apart.ids x hx hx'
      · cases List.mem_singleton.1 hx
        exact unreserved (reserved_of_mem hp hx')

/-- The commit of an event with its outbox row is `ingest_event` in one step. -/
theorem commit_new {body : EventCreate} {id oid : UUID} (own : st.tables.Admits body id)
    (fresh : oid ∉ st.tables.issued) (ne : id ≠ oid) : ∃ db : Database,
      st.system.store.db.commitRows (some (body.event id)) (some ⟨oid, id⟩) = some db ∧
      db.toTables = { st.tables with
        events := st.tables.events ++ [body.event id]
        outbox := st.tables.outbox ++ [⟨oid, id⟩]
        issued := oid :: id :: st.tables.issued } ∧
      st.system.ingest id oid body = some (st.system.setDb db) := by
  have v : st.tables.Valid := st.system.store.db.valid
  have rows : st.tables.insertEvent (body.event id) oid = some { st.tables with
      events := st.tables.events ++ [body.event id]
      outbox := st.tables.outbox ++ [⟨oid, id⟩]
      issued := oid :: id :: st.tables.issued } := by
    refine (if_neg own.free).trans (if_neg ?_)
    exact fun taken => taken.elim own.fresh fun taken => taken.elim fresh ne
  have whole : st.tables.commitRows (some (body.event id)) (some ⟨oid, id⟩) =
      st.tables.insertEvent (body.event id) oid :=
    Tables.commitRows_eq v own.fresh own.free fresh ne
  let db : Database := { toTables := _, valid := v.insertEvent rows }
  refine ⟨db, Database.exec_eq_some.2 (whole.trans rows), rfl, ?_⟩
  have inserted : st.system.store.db.insertEvent (body.event id) oid = some db :=
    Database.exec_eq_some.2 rows
  rw [State.ingest, inserted]
  rfl

/-- The commit of a request whose event was there changes nothing. -/
theorem commit_known : st.system.store.db.commitRows none none = some st.system.store.db :=
  Database.exec_eq_some.2 rfl

/-- A commit after the flush succeeds, and the deployment takes at most the step of `ingest_event`. -/
theorem Inv.commit_eq (cfg : Settings) {event : Event} (h : Inv st)
    (found : st.requests[i]? = some q) (flushed : q.stage = .flushed event) :
    (∃ id oid db, q = ⟨q.body, .flushed (q.body.event id), some (q.body.event id), some ⟨oid, id⟩⟩ ∧
      event = q.body.event id ∧ st.tables.Admits q.body id ∧ oid ∉ st.tables.issued ∧ id ≠ oid ∧
      st.system.store.db.commitRows q.event q.outbox = some db ∧
      db.toTables = { st.tables with
        events := st.tables.events ++ [q.body.event id]
        outbox := st.tables.outbox ++ [⟨oid, id⟩]
        issued := oid :: id :: st.tables.issued } ∧
      st.system.step cfg (.ingest id oid q.body) = some (st.system.setDb db)) ∨
    (q = ⟨q.body, .flushed event, none, none⟩ ∧ event.idempotencyKey = q.body.idempotencyKey ∧
      st.tables.Stores event ∧
      st.system.store.db.commitRows q.event q.outbox = some st.system.store.db) := by
  have sound := h.sound q (List.mem_of_getElem? found)
  cases sound <;> cases flushed
  case flushed body id oid own fresh ne =>
    obtain ⟨db, committed, tables, step⟩ := commit_new own fresh ne
    exact .inl ⟨id, oid, db, rfl, rfl, own, fresh, ne, committed, tables, step⟩
  case unflushed body key stored => exact .inr ⟨rfl, key, stored, commit_known⟩

/-- The state after a commit, once the tables are known to keep the shapes. -/
theorem Inv.returned {db : Database} {event : Event} {c : IngestCommit} (h : Inv st)
    (found : st.requests[i]? = some q) (stores : ∀ e, st.tables.Stores e → db.Stores e)
    (others : ∀ j p, j ≠ i → st.requests[j]? = some p → p.Sound db.toTables)
    (key : event.idempotencyKey = q.body.idempotencyKey) (stored : db.Stores event)
    (committed : c.Sound db.toTables)
    (once : (((c :: st.commits).filterMap (·.event)).map (·.id)).Nodup)
    (complete : ∀ e ∈ db.events, e.id ∈ ((c :: st.commits).filterMap (·.event)).map (·.id))
    (issued : ∀ x ∈ ((c :: st.commits).filterMap (·.event)).map (·.id), x ∈ db.issued) :
    Inv ⟨st.system.setDb db, st.requests.set i { body := q.body, stage := .returned event },
      c :: st.commits⟩ where
  sound p hp := by
    obtain ⟨j, hj⟩ := List.mem_iff_getElem?.1 hp
    by_cases same : j = i
    · subst same
      rw [List.getElem?_set_self (List.getElem?_eq_some_iff.1 found).1] at hj
      cases hj
      exact .returned key stored
    · rw [List.getElem?_set_ne (Ne.symm same)] at hj
      exact others j p same hj
  apart := h.apart.set fun j p ne hp => by
    have apart : Ingest.Apart { body := q.body, stage := .returned event } p :=
      (h.apart i j q p ne.symm found hp).of_subset (by rintro _ ⟨⟩) fun x hx => by cases hx
    exact ⟨apart, apart.symm⟩
  commits c' hc := by
    rcases List.mem_cons.1 hc with rfl | hc
    · exact committed
    · exact (h.commits c' hc).mono stores
  once := once
  complete := complete
  issued := issued

/-- The other requests keep their shapes when a request commits its two rows. -/
theorem Inv.others_new {db : Database} {e : Event} {oid : UUID} (h : Inv st)
    (found : st.requests[i]? = some q) (event : q.event = some e)
    (outbox : q.outbox = some ⟨oid, e.id⟩) (stores : ∀ e, st.tables.Stores e → db.Stores e)
    (events : db.events = st.tables.events ++ [e])
    (issued : db.issued = oid :: e.id :: st.tables.issued) :
    ∀ j p, j ≠ i → st.requests[j]? = some p → p.Sound db.toTables := by
  intro j p ne hp
  have apart := h.apart i j q p ne.symm found hp
  have ids : q.ids = [e.id, oid] := by rw [Ingest.ids, event, outbox]; rfl
  refine (h.sound p (List.mem_of_getElem? hp)).mono stores (fun k hk => ?_) ?_ ?_
  · rw [Tables.TakesKey, events, List.map_append]
    exact List.mem_append_left _ hk
  · intro x hx unissued
    rw [issued]
    intro hm
    rcases List.mem_cons.1 hm with rfl | hm
    · exact apart.ids _ (by simp [ids]) hx
    · rcases List.mem_cons.1 hm with rfl | hm
      · exact apart.ids _ (by simp [ids]) hx
      · exact unissued hm
  · intro e' he' free taken
    rw [Tables.TakesKey, events, List.map_append, List.mem_append] at taken
    refine taken.elim free fun same => ?_
    exact apart.keys e e' event he' (List.mem_singleton.1 same).symm

theorem Inv.commit (cfg : Settings) {event : Event} (h : Inv st) (found : st.requests[i]? = some q)
    (flushed : q.stage = .flushed event) (step : st.commit i q event = some st') : Inv st' := by
  simp only [Ingestion.commit, Option.bind_eq_bind, Option.bind_eq_some_iff, Option.some.injEq]
    at step
  obtain ⟨db, committed, rfl⟩ := step
  rcases h.commit_eq cfg found flushed with
    ⟨id, oid, db', shape, rfl, own, fresh, ne, committed', tables, -⟩ | ⟨shape, key, stored, same⟩
  · cases committed.symm.trans committed'
    have event : q.event = some (q.body.event id) := by rw [shape]
    have outbox : q.outbox = some ⟨oid, id⟩ := by rw [shape]
    have events : db.events = st.tables.events ++ [q.body.event id] := by rw [tables]
    have issued : db.issued = oid :: id :: st.tables.issued := by rw [tables]
    have stores : ∀ e, st.tables.Stores e → db.Stores e := fun e ⟨status, he⟩ =>
      ⟨status, events ▸ List.mem_append_left _ he⟩
    have mine : db.Stores (q.body.event id) :=
      Tables.stores_of_mem (events ▸ List.mem_append_right _ (List.mem_singleton_self _))
    have ingested : ((⟨q.event, q.outbox⟩ :: st.commits).filterMap (·.event)).map (·.id) =
        id :: st.ingested := by
      rw [event]
      rfl
    refine h.returned found stores (h.others_new found event outbox stores events issued) rfl mine
      ?_ ?_ ?_ ?_
    · rw [event, outbox]
      exact .new mine
    · rw [ingested]
      exact List.nodup_cons.2 ⟨fun hm => own.fresh (h.issued id hm), h.once⟩
    · intro e he
      rw [ingested]
      rw [events] at he
      rcases List.mem_append.1 he with he | he
      · exact List.mem_cons_of_mem _ (h.complete e he)
      · rw [List.mem_singleton.1 he]
        exact List.mem_cons_self
    · intro x hx
      rw [ingested] at hx
      rw [issued]
      rcases List.mem_cons.1 hx with rfl | hx
      · exact List.mem_cons_of_mem _ List.mem_cons_self
      · exact List.mem_cons_of_mem _ (List.mem_cons_of_mem _ (h.issued x hx))
  · cases committed.symm.trans same
    have nothing : q.event = none ∧ q.outbox = none := by rw [shape]; exact ⟨rfl, rfl⟩
    rw [nothing.1, nothing.2]
    exact h.returned found (fun _ he => he) (fun j p _ hp => h.sound p (List.mem_of_getElem? hp))
      key stored .known h.once h.complete h.issued

/-- The other steps of the deployment draw none of the reserved identifiers and insert no event. -/
theorem Inv.other {cfg : Settings} {a : HookRelay.Action} (h : Inv st)
    (step : st.otherStep cfg a = some st') : Inv st' := by
  simp only [Ingestion.otherStep, Option.bind_eq_bind, Option.ite_none_left_eq_some,
    Option.bind_eq_some_iff, Option.some.injEq, Bool.or_eq_true, not_or, Bool.not_eq_true] at step
  obtain ⟨⟨other, draws⟩, system, step, rfl⟩ := step
  have hs := step_transition step
  have stores : ∀ e, st.tables.Stores e → system.store.db.Stores e := fun e =>
    hs.stores_mono other
  exact {
    sound := fun q hq => by
      refine (h.sound q hq).mono stores (fun k => (hs.takesKey_iff other).2) ?_ ?_
      · intro x hx unissued issued
        rcases hs.issued_cases issued with old | drawn
        · exact unissued old
        · have reserved : x ∈ st.reserved := List.mem_flatMap.2 ⟨q, hq, hx⟩
          exact Bool.false_ne_true (draws.symm.trans
            (List.any_eq_true.2 ⟨x, drawn, decide_eq_true reserved⟩))
      · exact fun e _ free taken => free ((hs.takesKey_iff other).1 taken)
    apart := h.apart
    commits := fun c hc => (h.commits c hc).mono stores
    once := h.once
    complete := fun e he => by
      rcases hs.events_cases other with same | ⟨id, status, same⟩
      · exact h.complete e (same ▸ he)
      · have he : e ∈ (st.tables.setStatus id status).events := same ▸ he
        obtain ⟨e', he', rfl⟩ := List.mem_map.1 he
        have known := h.complete e' he'
        split <;> exact known
    issued := fun x hx => hs.evolves.issued x (h.issued x hx) }

theorem Inv.request {body : EventCreate} (h : Inv st) :
    Inv { st with requests := st.requests ++ [{ body }] } where
  sound q hq := by
    rcases List.mem_append.1 hq with hq | hq
    · exact h.sound q hq
    · rw [List.mem_singleton.1 hq]
      exact .arrived
  apart := h.apart.snoc fun q _ => by
    have apart : Ingest.Apart { body } q := ⟨by rintro _ _ ⟨⟩, fun x hx => by cases hx⟩
    exact ⟨apart, apart.symm⟩
  commits := h.commits
  once := h.once
  complete := h.complete
  issued := h.issued

theorem Inv.step {cfg : Settings} {a : Action} (h : Inv st)
    (step : st.step cfg a = some st') : Inv st' := by
  cases a with
  | request body =>
    cases step
    exact h.request
  | other a => exact h.other step
  | ingest i a =>
    simp only [Ingestion.step, ingestStep, Option.bind_eq_bind, Option.bind_eq_some_iff] at step
    obtain ⟨q, found, step⟩ := step
    split at step
    · exact h.insert found ‹_› step
    · cases step
      exact h.select found ‹_›
    · exact h.flush found ‹_› step
    · exact h.commit cfg found ‹_› step
    · simp only [Option.ite_none_right_eq_some, Option.some.injEq] at step
      obtain ⟨-, rfl⟩ := step
      exact h.restage found .failed (by rintro _ ⟨⟩) fun _ hx => by cases hx
    · cases step

theorem Inv.initial : Inv .initial where
  sound _ hq := by cases hq
  apart := .nil
  commits _ hc := by cases hc
  once := List.nodup_nil
  complete _ he := by cases he
  issued _ hx := by cases hx

end Ingestion
end Steps

/-! ## Runs -/

namespace Ingestion

/-- The states some interleaving of the requests and the rest of the deployment reaches. -/
abbrev Reachable (cfg : Settings) (st : Ingestion) : Prop :=
  Lts.Reachable (Ingestion.step cfg) Lts.Any initial st

variable {cfg : Settings} {st : Ingestion}

theorem inv (h : Reachable cfg st) : Inv st :=
  h.invariant (fun _ _ _ h _ hs => h.step hs) .initial

theorem insert_system {i : Nat} {q : Ingest} {id : UUID} {st' : Ingestion}
    (h : st.insert i q id = some st') : st'.system = st.system := by
  unfold Ingestion.insert at h
  split at h
  · cases h
  split at h
  · cases h
    rfl
  · obtain ⟨-, h⟩ := Option.ite_none_right_eq_some.1 h
    cases h
    rfl

theorem flush_system {i : Nat} {q : Ingest} {insertedId : Option UUID} {event : Event}
    {outboxId : UUID} {st' : Ingestion} (h : st.flush i q insertedId event outboxId = some st') :
    st'.system = st.system := by
  unfold Ingestion.flush at h
  split at h
  · cases h
    rfl
  · obtain ⟨-, h⟩ := Option.ite_none_right_eq_some.1 h
    split at h <;> cases h <;> rfl

/-- A step of a request is none of the deployment, but for the commit of a new event, which is its
`ingest_event`. -/
theorem Inv.system_step {st' : Ingestion} {a : Action} (h : Inv st)
    (step : st.step cfg a = some st') :
    st'.system = st.system ∨ ∃ b, st.system.step cfg b = some st'.system := by
  cases a with
  | request body => cases step; exact .inl rfl
  | other a =>
    simp only [Ingestion.step, otherStep, Option.bind_eq_bind, Option.ite_none_left_eq_some,
      Option.bind_eq_some_iff, Option.some.injEq] at step
    obtain ⟨-, system, step, rfl⟩ := step
    exact .inr ⟨a, step⟩
  | ingest i a =>
    simp only [Ingestion.step, ingestStep, Option.bind_eq_bind, Option.bind_eq_some_iff] at step
    obtain ⟨q, found, step⟩ := step
    split at step
    · exact .inl (insert_system step)
    · cases step
      unfold Ingestion.select
      split <;> exact .inl rfl
    · exact .inl (flush_system step)
    · rename_i flushed
      simp only [Ingestion.commit, Option.bind_eq_bind, Option.bind_eq_some_iff,
        Option.some.injEq] at step
      obtain ⟨db, committed, rfl⟩ := step
      rcases h.commit_eq cfg found flushed with
        ⟨id, oid, db', -, -, -, -, -, committed', -, step⟩ | ⟨-, -, -, same⟩
      · cases committed.symm.trans committed'
        exact .inr ⟨_, step⟩
      · cases committed.symm.trans same
        exact .inl rfl
    · simp only [Option.ite_none_right_eq_some, Option.some.injEq] at step
      obtain ⟨-, rfl⟩ := step
      exact .inl rfl
    · cases step

/-- `ingest_event` in one step stands for the statements of any number of requests: the deployment
reaches only states that it reaches with it. -/
theorem system_reachable (h : Reachable cfg st) : HookRelay.Reachable cfg st.system :=
  h.refines fun _ _ _ reach hs => (inv reach).system_step hs

/-- The outbox rows that were committed are those of the events that were inserted. -/
theorem outbox_events {t : Tables} {commits : List IngestCommit}
    (h : ∀ c ∈ commits, c.Sound t) :
    (commits.filterMap (·.outbox)).map (·.eventId) = (commits.filterMap (·.event)).map (·.id) := by
  induction commits with
  | nil => rfl
  | cons c rest ih =>
    have rest := ih fun c hc => h c (List.mem_cons_of_mem _ hc)
    cases h c List.mem_cons_self with
    | known => exact rest
    | new => simpa using rest

/-- Ingestion is exactly-once by idempotency key. -/
structure ExactlyOnce (cfg : Settings) (st : Ingestion) : Prop where
  keys : (st.tables.events.map (·.idempotencyKey)).Nodup
  /-- Of all outbox rows ever committed exactly one is the event's, committed with the event. -/
  outbox : ∀ e ∈ st.tables.events,
    (st.commits.filterMap (·.outbox)).countP (·.eventId = e.id) = 1 ∧
    ∃ c ∈ st.commits, ∃ e' o, c.event = some e' ∧ e'.id = e.id ∧ c.outbox = some o ∧ o.eventId = e.id
  /-- What a request returns is the committed event with its key. -/
  returned : ∀ q ∈ st.requests, ∀ e, q.stage = .returned e →
    e.idempotencyKey = q.body.idempotencyKey ∧ st.tables.Stores e
  selects : ∀ q ∈ st.requests, q.stage ≠ .noResult
  /-- The commit behind the flush never fails. -/
  commits : ∀ i q e, st.requests[i]? = some q → q.stage = .flushed e →
    ∃ st', st.step cfg (.ingest i .commit) = some st'

theorem Inv.exactlyOnce (h : Inv st) : ExactlyOnce cfg st where
  keys := st.system.store.db.valid.events_idempotency_key
  outbox e he := by
    have known := h.complete e he
    constructor
    · have count : (st.commits.filterMap (·.outbox)).countP (·.eventId = e.id) =
          ((st.commits.filterMap (·.outbox)).map (·.eventId)).count e.id := by
        rw [List.count, List.countP_map]
        exact List.countP_congr fun o _ => by simp
      rw [count, outbox_events h.commits]
      exact List.count_eq_one_of_mem h.once known
    · obtain ⟨e', he', same⟩ := List.mem_map.1 known
      obtain ⟨c, hc, event⟩ := List.mem_filterMap.1 he'
      refine ⟨c, hc, ?_⟩
      cases h.commits c hc with
      | known => cases event
      | new => cases event; exact ⟨e', _, rfl, same, rfl, same⟩
  returned q hq e stage := by
    have sound := h.sound q hq
    cases sound <;> cases stage
    case returned key stored => exact ⟨key, stored⟩
  selects q hq stage := by
    have sound := h.sound q hq
    cases sound <;> cases stage
  commits i q e found stage := by
    have committed : ∃ db, st.system.store.db.commitRows q.event q.outbox = some db := by
      rcases h.commit_eq cfg found stage with
        ⟨_, _, db, _, _, _, _, _, committed, _⟩ | ⟨_, _, _, committed⟩
      · exact ⟨db, committed⟩
      · exact ⟨_, committed⟩
    obtain ⟨db, committed⟩ := committed
    simp [Ingestion.step, ingestStep, found, stage, Ingestion.commit, committed]

end Ingestion

/-- Ingestion is exactly-once by idempotency key, for any number of requests in any interleaving
with each other and with the rest of the deployment. -/
theorem ingestion_exactly_once {cfg : Settings} {st : Ingestion}
    (h : Ingestion.Reachable cfg st) : Ingestion.ExactlyOnce cfg st :=
  (Ingestion.inv h).exactlyOnce

/-- The first of three requests with one key is rolled back after its insert; the second inserts the
event, and the third finds it. -/
theorem ingestion_exactly_once_three : ∃ st : Ingestion, st.requests.length = 3 ∧
    st.tables.events.length = 1 ∧ Ingestion.ExactlyOnce {} st := by
  obtain ⟨st, run, h⟩ := Lts.Run.of_check_any (C := fun _ _ => true) (s := .initial)
    (p := fun st : Ingestion => st.requests.length = 3 && st.tables.events.length = 1)
    (show (Lts.check (Ingestion.step {}) _ _
      [.request sampleEvent, .request sampleEvent, .request sampleEvent,
        .ingest 0 (.insert (.ofNat 1)), .ingest 0 .select, .ingest 0 .abort,
        .ingest 1 (.insert (.ofNat 2)), .ingest 1 .select, .ingest 1 (.flush (.ofNat 3)),
        .ingest 1 .commit, .ingest 2 (.insert (.ofNat 4)), .ingest 2 .select,
        .ingest 2 (.flush (.ofNat 5)), .ingest 2 .commit]).any _ = true by decide +kernel)
  simp only [Bool.and_eq_true, decide_eq_true_eq] at h
  exact ⟨st, h.1, h.2, ingestion_exactly_once ⟨_, run.any⟩⟩

end HookRelay
