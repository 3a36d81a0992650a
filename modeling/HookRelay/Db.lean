import HookRelay.Data

/-!
# The PostgreSQL tables

`Tables` holds the committed rows and the statements the program issues, each as it acts on the
committed state. A statement that violates a constraint raises, which is `none` here. `Valid`
is the conjunction of the constraints of `db/models.py`; `Database` carries it, so a later
proof never has to re-establish that two rows do not share a key or that a row's endpoint exists.

`gen_random_uuid()` is an argument of the inserting statement: any identifier that was never
generated before.
-/

namespace HookRelay

structure Tables where
  endpoints : List Endpoint := []
  events : List Event := []
  attempts : List DeliveryAttempt := []
  dlq : List DLQEntry := []
  outbox : List OutboxEntry := []
  /-- Every identifier `gen_random_uuid()` has returned. -/
  issued : List UUID := []

namespace Tables

def endpointIds (t : Tables) : List UUID := t.endpoints.map (·.id)
def eventIds (t : Tables) : List UUID := t.events.map (·.id)

/-- The constraints of the schema. -/
structure Valid (t : Tables) : Prop where
  endpoints_pkey : t.endpointIds.Nodup
  endpoints_issued : ∀ p ∈ t.endpoints, p.id ∈ t.issued
  events_pkey : t.eventIds.Nodup
  events_issued : ∀ e ∈ t.events, e.id ∈ t.issued
  events_idempotency_key : (t.events.map (·.idempotencyKey)).Nodup
  uq_delivery_attempt : (t.attempts.map (·.key)).Nodup
  attempts_event_fkey : ∀ a ∈ t.attempts, a.eventId ∈ t.eventIds
  attempts_endpoint_fkey : ∀ a ∈ t.attempts, a.endpointId ∈ t.endpointIds
  attempts_response_body : ∀ a ∈ t.attempts, a.storable = true
  dlq_pkey : (t.dlq.map (·.id)).Nodup
  dlq_issued : ∀ d ∈ t.dlq, d.id ∈ t.issued
  uq_dlq_entry : (t.dlq.map (·.pair)).Nodup
  dlq_event_fkey : ∀ d ∈ t.dlq, d.eventId ∈ t.eventIds
  dlq_endpoint_fkey : ∀ d ∈ t.dlq, d.endpointId ∈ t.endpointIds
  outbox_pkey : (t.outbox.map (·.id)).Nodup
  outbox_issued : ∀ o ∈ t.outbox, o.id ∈ t.issued
  outbox_event_id : (t.outbox.map (·.eventId)).Nodup
  outbox_event_fkey : ∀ o ∈ t.outbox, o.eventId ∈ t.eventIds

/-! ## Queries -/

/-- `session.get(Event, id)`. -/
def getEvent (t : Tables) (id : UUID) : Option Event := t.events.find? (·.id = id)

/-- `session.get(Endpoint, id)`. -/
def getEndpoint (t : Tables) (id : UUID) : Option Endpoint := t.endpoints.find? (·.id = id)

/-- `db.get(DLQEntry, id)`. -/
def getDlq (t : Tables) (id : UUID) : Option DLQEntry := t.dlq.find? (·.id = id)

/-- The idempotency `SELECT` of a delivery: some attempt of the pair has status `success`. -/
def hasSuccess (t : Tables) (eventId endpointId : UUID) : Bool :=
  t.attempts.any fun a => a.eventId = eventId && a.endpointId = endpointId && a.status = .success

/-- The endpoints a fan-out is delivered to: enabled, and subscribed to the event's type. -/
def matching (t : Tables) (eventType : String) : List Endpoint :=
  t.endpoints.filter fun p => p.enabled && p.eventTypes.contains eventType

/-! ## Statements -/

/-- `INSERT INTO endpoints`. -/
def insertEndpoint (t : Tables) (p : Endpoint) : Option Tables :=
  if p.id ∈ t.issued then none
  else some { t with endpoints := t.endpoints ++ [p], issued := p.id :: t.issued }

/-- `UPDATE endpoints SET … WHERE id = …`, with the new row computed from the old one. -/
def updateEndpoint (t : Tables) (id : UUID) (f : Endpoint → Endpoint) : Tables :=
  { t with endpoints := t.endpoints.map fun p => if p.id = id then { f p with id := p.id } else p }

/-- The three deletions of `delete_endpoint`, in one transaction under the endpoint's row lock. -/
def deleteEndpoint (t : Tables) (id : UUID) : Tables :=
  { t with
    attempts := t.attempts.filter (·.endpointId ≠ id)
    dlq := t.dlq.filter (·.endpointId ≠ id)
    endpoints := t.endpoints.filter (·.id ≠ id) }

/-- `ingest_event`: the event and its outbox row in one transaction, or nothing when the
idempotency key is taken. -/
def insertEvent (t : Tables) (e : Event) (outboxId : UUID) : Option Tables :=
  if e.idempotencyKey ∈ t.events.map (·.idempotencyKey) then some t
  else if e.id ∈ t.issued ∨ outboxId ∈ t.issued ∨ e.id = outboxId then none
  else some { t with
    events := t.events ++ [e]
    outbox := t.outbox ++ [{ id := outboxId, eventId := e.id }]
    issued := outboxId :: e.id :: t.issued }

/-- The row conflicts with one that `uq_delivery_attempt` covers. -/
def conflictsAttempt (t : Tables) (a : DeliveryAttempt) : Bool := a.key ∈ t.attempts.map (·.key)

/-- The row conflicts with one that `uq_dlq_entry` covers. -/
def conflictsDlq (t : Tables) (d : DLQEntry) : Bool := d.pair ∈ t.dlq.map (·.pair)

/-- `INSERT INTO delivery_attempts … ON CONFLICT DO NOTHING`. A text that the column does not take
raises before the conflict is looked for. -/
def insertAttempt (t : Tables) (a : DeliveryAttempt) : Option Tables :=
  if a.storable = false then none
  else if t.conflictsAttempt a then some t
  else if a.eventId ∈ t.eventIds ∧ a.endpointId ∈ t.endpointIds then
    some { t with attempts := t.attempts ++ [a] }
  else none

/-- `INSERT INTO dlq_entries … ON CONFLICT DO NOTHING`. -/
def insertDlq (t : Tables) (d : DLQEntry) : Option Tables :=
  if t.conflictsDlq d then some t
  else if d.id ∉ t.issued ∧ d.eventId ∈ t.eventIds ∧ d.endpointId ∈ t.endpointIds then
    some { t with dlq := t.dlq ++ [d], issued := d.id :: t.issued }
  else none

/-- `DELETE FROM dlq_entries` of the rows with the given identifiers. -/
def deleteDlq (t : Tables) (ids : List UUID) : Tables :=
  { t with dlq := t.dlq.filter (·.id ∉ ids) }

/-- `DELETE FROM outbox` of the rows with the given identifiers. -/
def deleteOutbox (t : Tables) (ids : List UUID) : Tables :=
  { t with outbox := t.outbox.filter (·.id ∉ ids) }

/-- `UPDATE events SET status = …`. -/
def setStatus (t : Tables) (id : UUID) (status : EventStatus) : Tables :=
  { t with events := t.events.map fun e => if e.id = id then { e with status } else e }

/-! ## The statements keep the constraints -/

theorem updateEndpoint_ids (t : Tables) (id : UUID) (f : Endpoint → Endpoint) :
    (t.updateEndpoint id f).endpointIds = t.endpointIds := by
  simp only [updateEndpoint, endpointIds, List.map_map]
  exact List.map_congr_left fun p _ => by simp only [Function.comp]; split <;> rfl

theorem setStatus_ids (t : Tables) (id : UUID) (status : EventStatus) :
    (t.setStatus id status).eventIds = t.eventIds := by
  simp only [setStatus, eventIds, List.map_map]
  exact List.map_congr_left fun e _ => by simp only [Function.comp]; split <;> rfl

/-- Appending one element keeps a projection duplicate-free when its value is new. -/
theorem nodup_map_snoc {α β : Type*} {f : α → β} {l : List α} {a : α} (h : (l.map f).Nodup)
    (ha : f a ∉ l.map f) : ((l ++ [a]).map f).Nodup := by
  rw [List.map_append, List.map_singleton, List.nodup_append]
  exact ⟨h, List.nodup_singleton _, fun x hx y hy => by
    rw [List.mem_singleton] at hy; subst hy; exact fun he => ha (he ▸ hx)⟩

theorem nodup_map_filter {α β : Type*} {f : α → β} {l : List α} (p : α → Bool)
    (h : (l.map f).Nodup) : ((l.filter p).map f).Nodup :=
  h.sublist (List.filter_sublist.map f)

theorem Valid.empty : Valid {} := by
  constructor <;> simp [endpointIds, eventIds]

theorem Valid.insertEndpoint {t t' : Tables} {p : Endpoint} (v : t.Valid)
    (h : t.insertEndpoint p = some t') : t'.Valid := by
  simp only [Tables.insertEndpoint, Option.ite_none_left_eq_some, Option.some.injEq] at h
  obtain ⟨fresh, rfl⟩ := h
  have grow : ∀ {x}, x ∈ t.endpointIds → x ∈ (t.endpoints ++ [p]).map (·.id) := fun hx => by
    rw [List.map_append]; exact List.mem_append_left _ hx
  exact {
    v with
    endpoints_pkey := nodup_map_snoc v.endpoints_pkey fun hm => by
      obtain ⟨q, hq, he⟩ := List.mem_map.1 hm
      exact fresh (he ▸ v.endpoints_issued q hq)
    endpoints_issued := fun q hq => by
      rcases List.mem_append.1 hq with hq | hq
      · exact List.mem_cons_of_mem _ (v.endpoints_issued q hq)
      · rw [List.mem_singleton.1 hq]; exact List.mem_cons_self
    events_issued := fun e he => List.mem_cons_of_mem _ (v.events_issued e he)
    attempts_endpoint_fkey := fun a ha => grow (v.attempts_endpoint_fkey a ha)
    dlq_issued := fun d hd => List.mem_cons_of_mem _ (v.dlq_issued d hd)
    dlq_endpoint_fkey := fun d hd => grow (v.dlq_endpoint_fkey d hd)
    outbox_issued := fun o ho => List.mem_cons_of_mem _ (v.outbox_issued o ho) }

theorem Valid.updateEndpoint {t : Tables} (v : t.Valid) (id : UUID) (f : Endpoint → Endpoint) :
    (t.updateEndpoint id f).Valid := by
  have ids := updateEndpoint_ids t id f
  exact {
    v with
    endpoints_pkey := ids ▸ v.endpoints_pkey
    endpoints_issued := fun q hq => by
      obtain ⟨p, hp, rfl⟩ := List.mem_map.1 hq
      have := v.endpoints_issued p hp
      split <;> exact this
    attempts_endpoint_fkey := fun a ha => ids ▸ v.attempts_endpoint_fkey a ha
    dlq_endpoint_fkey := fun d hd => ids ▸ v.dlq_endpoint_fkey d hd }

theorem Valid.deleteEndpoint {t : Tables} (v : t.Valid) (id : UUID) : (t.deleteEndpoint id).Valid := by
  have keep : ∀ {x}, x ∈ t.endpointIds → x ≠ id →
      x ∈ (t.endpoints.filter fun p => p.id ≠ id).map (·.id) := by
    intro x hx hne
    obtain ⟨p, hp, rfl⟩ := List.mem_map.1 hx
    exact List.mem_map.2 ⟨p, List.mem_filter.2 ⟨hp, by simpa using hne⟩, rfl⟩
  exact {
    v with
    endpoints_pkey := nodup_map_filter _ v.endpoints_pkey
    endpoints_issued := fun p hp => v.endpoints_issued p (List.mem_filter.1 hp).1
    uq_delivery_attempt := nodup_map_filter _ v.uq_delivery_attempt
    attempts_event_fkey := fun a ha => v.attempts_event_fkey a (List.mem_filter.1 ha).1
    attempts_endpoint_fkey := fun a ha => by
      obtain ⟨ha, hne⟩ := List.mem_filter.1 ha
      exact keep (v.attempts_endpoint_fkey a ha) (by simpa using hne)
    attempts_response_body := fun a ha => v.attempts_response_body a (List.mem_filter.1 ha).1
    dlq_pkey := nodup_map_filter _ v.dlq_pkey
    dlq_issued := fun d hd => v.dlq_issued d (List.mem_filter.1 hd).1
    uq_dlq_entry := nodup_map_filter _ v.uq_dlq_entry
    dlq_event_fkey := fun d hd => v.dlq_event_fkey d (List.mem_filter.1 hd).1
    dlq_endpoint_fkey := fun d hd => by
      obtain ⟨hd, hne⟩ := List.mem_filter.1 hd
      exact keep (v.dlq_endpoint_fkey d hd) (by simpa using hne) }

theorem Valid.insertEvent {t t' : Tables} {e : Event} {outboxId : UUID} (v : t.Valid)
    (h : t.insertEvent e outboxId = some t') : t'.Valid := by
  unfold Tables.insertEvent at h
  split at h
  · cases h; exact v
  · rename_i keyNew
    simp only [Option.ite_none_left_eq_some, Option.some.injEq, not_or] at h
    obtain ⟨⟨eFresh, oFresh, ne⟩, rfl⟩ := h
    have grow : ∀ {x}, x ∈ t.eventIds → x ∈ (t.events ++ [e]).map (·.id) := fun hx => by
      rw [List.map_append]; exact List.mem_append_left _ hx
    have wider : ∀ {x}, x ∈ t.issued → x ∈ outboxId :: e.id :: t.issued := fun hx =>
      List.mem_cons_of_mem _ (List.mem_cons_of_mem _ hx)
    exact {
      v with
      endpoints_issued := fun p hp => wider (v.endpoints_issued p hp)
      events_pkey := nodup_map_snoc v.events_pkey fun hm => by
        obtain ⟨x, hx, he⟩ := List.mem_map.1 hm
        exact eFresh (he ▸ v.events_issued x hx)
      events_issued := fun x hx => by
        rcases List.mem_append.1 hx with hx | hx
        · exact wider (v.events_issued x hx)
        · rw [List.mem_singleton.1 hx]; exact List.mem_cons_of_mem _ List.mem_cons_self
      events_idempotency_key := nodup_map_snoc v.events_idempotency_key keyNew
      attempts_event_fkey := fun a ha => grow (v.attempts_event_fkey a ha)
      dlq_issued := fun d hd => wider (v.dlq_issued d hd)
      dlq_event_fkey := fun d hd => grow (v.dlq_event_fkey d hd)
      outbox_pkey := nodup_map_snoc v.outbox_pkey fun hm => by
        obtain ⟨x, hx, he⟩ := List.mem_map.1 hm
        have he : x.id = outboxId := he
        exact oFresh (he ▸ v.outbox_issued x hx)
      outbox_issued := fun x hx => by
        rcases List.mem_append.1 hx with hx | hx
        · exact wider (v.outbox_issued x hx)
        · rw [List.mem_singleton.1 hx]; exact List.mem_cons_self
      outbox_event_id := nodup_map_snoc v.outbox_event_id fun hm => by
        obtain ⟨x, hx, he⟩ := List.mem_map.1 hm
        have he : x.eventId = e.id := he
        obtain ⟨y, hy, hye⟩ := List.mem_map.1 (v.outbox_event_fkey x hx)
        exact eFresh (he ▸ hye ▸ v.events_issued y hy)
      outbox_event_fkey := fun x hx => by
        rcases List.mem_append.1 hx with hx | hx
        · exact grow (v.outbox_event_fkey x hx)
        · rw [List.mem_singleton.1 hx]; simp [eventIds] }

theorem Valid.insertAttempt {t t' : Tables} {a : DeliveryAttempt} (v : t.Valid)
    (h : t.insertAttempt a = some t') : t'.Valid := by
  simp only [Tables.insertAttempt, Option.ite_none_left_eq_some, Bool.not_eq_false] at h
  obtain ⟨stored, h⟩ := h
  split at h
  · cases h; exact v
  · rename_i fresh
    simp only [Option.ite_none_right_eq_some, Option.some.injEq] at h
    obtain ⟨⟨he, hp⟩, rfl⟩ := h
    exact {
      v with
      uq_delivery_attempt := nodup_map_snoc v.uq_delivery_attempt (by simpa [conflictsAttempt] using fresh)
      attempts_event_fkey := fun b hb => by
        rcases List.mem_append.1 hb with hb | hb
        · exact v.attempts_event_fkey b hb
        · rw [List.mem_singleton.1 hb]; exact he
      attempts_endpoint_fkey := fun b hb => by
        rcases List.mem_append.1 hb with hb | hb
        · exact v.attempts_endpoint_fkey b hb
        · rw [List.mem_singleton.1 hb]; exact hp
      attempts_response_body := fun b hb => by
        rcases List.mem_append.1 hb with hb | hb
        · exact v.attempts_response_body b hb
        · rw [List.mem_singleton.1 hb]; exact stored }

theorem Valid.insertDlq {t t' : Tables} {d : DLQEntry} (v : t.Valid)
    (h : t.insertDlq d = some t') : t'.Valid := by
  unfold Tables.insertDlq at h
  split at h
  · cases h; exact v
  · rename_i fresh
    simp only [Option.ite_none_right_eq_some, Option.some.injEq] at h
    obtain ⟨⟨hid, he, hp⟩, rfl⟩ := h
    have wider : ∀ {x}, x ∈ t.issued → x ∈ d.id :: t.issued := fun hx => List.mem_cons_of_mem _ hx
    exact {
      v with
      endpoints_issued := fun p hp => wider (v.endpoints_issued p hp)
      events_issued := fun e he => wider (v.events_issued e he)
      dlq_pkey := nodup_map_snoc v.dlq_pkey fun hm => by
        obtain ⟨x, hx, hxe⟩ := List.mem_map.1 hm
        exact hid (hxe ▸ v.dlq_issued x hx)
      dlq_issued := fun x hx => by
        rcases List.mem_append.1 hx with hx | hx
        · exact wider (v.dlq_issued x hx)
        · rw [List.mem_singleton.1 hx]; exact List.mem_cons_self
      uq_dlq_entry := nodup_map_snoc v.uq_dlq_entry (by simpa [conflictsDlq] using fresh)
      dlq_event_fkey := fun x hx => by
        rcases List.mem_append.1 hx with hx | hx
        · exact v.dlq_event_fkey x hx
        · rw [List.mem_singleton.1 hx]; exact he
      dlq_endpoint_fkey := fun x hx => by
        rcases List.mem_append.1 hx with hx | hx
        · exact v.dlq_endpoint_fkey x hx
        · rw [List.mem_singleton.1 hx]; exact hp
      outbox_issued := fun o ho => wider (v.outbox_issued o ho) }

theorem Valid.deleteDlq {t : Tables} (v : t.Valid) (ids : List UUID) : (t.deleteDlq ids).Valid :=
  { v with
    dlq_pkey := nodup_map_filter _ v.dlq_pkey
    dlq_issued := fun d hd => v.dlq_issued d (List.mem_filter.1 hd).1
    uq_dlq_entry := nodup_map_filter _ v.uq_dlq_entry
    dlq_event_fkey := fun d hd => v.dlq_event_fkey d (List.mem_filter.1 hd).1
    dlq_endpoint_fkey := fun d hd => v.dlq_endpoint_fkey d (List.mem_filter.1 hd).1 }

theorem Valid.deleteOutbox {t : Tables} (v : t.Valid) (ids : List UUID) :
    (t.deleteOutbox ids).Valid :=
  { v with
    outbox_pkey := nodup_map_filter _ v.outbox_pkey
    outbox_issued := fun o ho => v.outbox_issued o (List.mem_filter.1 ho).1
    outbox_event_id := nodup_map_filter _ v.outbox_event_id
    outbox_event_fkey := fun o ho => v.outbox_event_fkey o (List.mem_filter.1 ho).1 }

theorem Valid.setStatus {t : Tables} (v : t.Valid) (id : UUID) (status : EventStatus) :
    (t.setStatus id status).Valid := by
  have ids := setStatus_ids t id status
  have keys : (t.setStatus id status).events.map (·.idempotencyKey) =
      t.events.map (·.idempotencyKey) := by
    simp only [Tables.setStatus, List.map_map]
    exact List.map_congr_left fun e _ => by simp only [Function.comp]; split <;> rfl
  exact {
    v with
    events_pkey := ids ▸ v.events_pkey
    events_issued := fun q hq => by
      obtain ⟨e, he, rfl⟩ := List.mem_map.1 hq
      have := v.events_issued e he
      split <;> exact this
    events_idempotency_key := keys ▸ v.events_idempotency_key
    attempts_event_fkey := fun a ha => ids ▸ v.attempts_event_fkey a ha
    dlq_event_fkey := fun d hd => ids ▸ v.dlq_event_fkey d hd
    outbox_event_fkey := fun o ho => ids ▸ v.outbox_event_fkey o ho }

/-! ## Reading the tables after a statement -/

/-- An attempt of the pair with number `n` is recorded. -/
def HasRow (t : Tables) (eventId endpointId : UUID) (n : Nat) : Prop :=
  ∃ a ∈ t.attempts, a.eventId = eventId ∧ a.endpointId = endpointId ∧ a.attemptNumber = n

/-- A dead letter of the pair is recorded. -/
def HasDlq (t : Tables) (eventId endpointId : UUID) : Prop :=
  ∃ d ∈ t.dlq, d.eventId = eventId ∧ d.endpointId = endpointId

instance (t : Tables) (e p : UUID) (n : Nat) : Decidable (t.HasRow e p n) :=
  inferInstanceAs (Decidable (∃ a ∈ t.attempts, a.eventId = e ∧ a.endpointId = p ∧
    a.attemptNumber = n))

instance (t : Tables) (e p : UUID) : Decidable (t.HasDlq e p) :=
  inferInstanceAs (Decidable (∃ d ∈ t.dlq, d.eventId = e ∧ d.endpointId = p))

theorem hasSuccess_iff {t : Tables} {e p : UUID} :
    t.hasSuccess e p = true ↔
      ∃ a ∈ t.attempts, a.eventId = e ∧ a.endpointId = p ∧ a.status = .success := by
  simp [hasSuccess, and_assoc]

theorem mem_matching {t : Tables} {eventType : String} {p : Endpoint} :
    p ∈ t.matching eventType ↔ p ∈ t.endpoints ∧ p.enabled = true ∧ eventType ∈ p.eventTypes := by
  simp [matching]

theorem mem_endpointIds {t : Tables} {id : UUID} :
    id ∈ t.endpointIds ↔ ∃ p ∈ t.endpoints, p.id = id := by
  simp [endpointIds]

theorem mem_eventIds {t : Tables} {id : UUID} : id ∈ t.eventIds ↔ ∃ e ∈ t.events, e.id = id := by
  simp [eventIds]

theorem getEvent_some {t : Tables} {id : UUID} {e : Event} (h : t.getEvent id = some e) :
    e ∈ t.events ∧ e.id = id :=
  ⟨List.mem_of_find?_eq_some h, by simpa using List.find?_some h⟩

theorem getEndpoint_some {t : Tables} {id : UUID} {p : Endpoint} (h : t.getEndpoint id = some p) :
    p ∈ t.endpoints ∧ p.id = id :=
  ⟨List.mem_of_find?_eq_some h, by simpa using List.find?_some h⟩

theorem getDlq_some {t : Tables} {id : UUID} {d : DLQEntry} (h : t.getDlq id = some d) :
    d ∈ t.dlq ∧ d.id = id :=
  ⟨List.mem_of_find?_eq_some h, by simpa using List.find?_some h⟩

theorem getEvent_isSome {t : Tables} {id : UUID} (h : id ∈ t.eventIds) :
    ∃ e, t.getEvent id = some e := by
  obtain ⟨e, he, rfl⟩ := mem_eventIds.1 h
  exact Option.isSome_iff_exists.1 (List.find?_isSome.2 ⟨e, he, by simp⟩)

theorem getEndpoint_isSome {t : Tables} {id : UUID} (h : id ∈ t.endpointIds) :
    ∃ p, t.getEndpoint id = some p := by
  obtain ⟨p, hp, rfl⟩ := mem_endpointIds.1 h
  exact Option.isSome_iff_exists.1 (List.find?_isSome.2 ⟨p, hp, by simp⟩)

/-- Two rows of a list whose projection has no duplicates agree when their projections do. -/
theorem eq_of_nodup_map {α β : Type*} {f : α → β} {l : List α} (h : (l.map f).Nodup) {a b : α}
    (ha : a ∈ l) (hb : b ∈ l) (he : f a = f b) : a = b :=
  List.inj_on_of_nodup_map h ha hb he

/-- A row is found under its key. -/
theorem find?_key {α β : Type*} [DecidableEq β] {f : α → β} {l : List α} (h : (l.map f).Nodup) {a : α}
    (ha : a ∈ l) : l.find? (fun b => f b = f a) = some a := by
  cases found : l.find? (fun b => f b = f a) with
  | none => simpa using List.find?_eq_none.1 found a ha
  | some b =>
    have same : f b = f a := by simpa using List.find?_some found
    rw [eq_of_nodup_map h (List.mem_of_find?_eq_some found) ha same]

theorem Valid.getEvent_eq {t : Tables} (v : t.Valid) {event : Event} (h : event ∈ t.events) :
    t.getEvent event.id = some event :=
  find?_key v.events_pkey h

theorem Valid.getEndpoint_eq {t : Tables} (v : t.Valid) {q : Endpoint} (h : q ∈ t.endpoints) :
    t.getEndpoint q.id = some q :=
  find?_key v.endpoints_pkey h

theorem Valid.getDlq_eq {t : Tables} (v : t.Valid) {d : DLQEntry} (h : d ∈ t.dlq) : t.getDlq d.id = some d :=
  find?_key v.dlq_pkey h

theorem conflictsAttempt_iff {t : Tables} {a : DeliveryAttempt} :
    t.conflictsAttempt a = true ↔ t.HasRow a.eventId a.endpointId a.attemptNumber := by
  simp [conflictsAttempt, HasRow, DeliveryAttempt.key]

theorem conflictsDlq_iff {t : Tables} {d : DLQEntry} :
    t.conflictsDlq d = true ↔ t.HasDlq d.eventId d.endpointId := by
  simp [conflictsDlq, HasDlq, DLQEntry.pair]

/-- An insert of an attempt whose text can be stored either finds its number taken and changes
nothing, or appends the row of an existing event and endpoint. -/
theorem insertAttempt_cases {t t' : Tables} {a : DeliveryAttempt} (h : t.insertAttempt a = some t') :
    a.storable = true ∧ ((t.HasRow a.eventId a.endpointId a.attemptNumber ∧ t' = t) ∨
      (¬ t.HasRow a.eventId a.endpointId a.attemptNumber ∧ a.eventId ∈ t.eventIds ∧
        a.endpointId ∈ t.endpointIds ∧ t' = { t with attempts := t.attempts ++ [a] })) := by
  simp only [Tables.insertAttempt, Option.ite_none_left_eq_some, Bool.not_eq_false] at h
  refine ⟨h.1, ?_⟩
  replace h := h.2
  split at h
  · rename_i taken; cases h; exact .inl ⟨conflictsAttempt_iff.1 taken, rfl⟩
  · rename_i free
    simp only [Option.ite_none_right_eq_some, Option.some.injEq] at h
    exact .inr ⟨fun hr => free (conflictsAttempt_iff.2 hr), h.1.1, h.1.2, h.2.symm⟩

/-- An insert that conflicts does nothing, if the column takes its text. -/
theorem insertAttempt_taken {t : Tables} {a : DeliveryAttempt} (stored : a.storable = true)
    (taken : t.conflictsAttempt a = true) : t.insertAttempt a = some t := by
  rw [insertAttempt, if_neg (by simp [stored]), if_pos taken]

/-- An insert that does not conflict appends its row. -/
theorem insertAttempt_free {t : Tables} {a : DeliveryAttempt} (stored : a.storable = true)
    (free : t.conflictsAttempt a = false) (event : a.eventId ∈ t.eventIds)
    (endpoint : a.endpointId ∈ t.endpointIds) :
    t.insertAttempt a = some { t with attempts := t.attempts ++ [a] } := by
  rw [insertAttempt, if_neg (by simp [stored]), if_neg (by simp [free]), if_pos ⟨event, endpoint⟩]

/-- An insert of a dead letter either finds the pair's row and changes nothing, or appends it. -/
theorem insertDlq_cases {t t' : Tables} {d : DLQEntry} (h : t.insertDlq d = some t') :
    (t.HasDlq d.eventId d.endpointId ∧ t' = t) ∨
      (¬ t.HasDlq d.eventId d.endpointId ∧ d.id ∉ t.issued ∧ d.eventId ∈ t.eventIds ∧
        d.endpointId ∈ t.endpointIds ∧
        t' = { t with dlq := t.dlq ++ [d], issued := d.id :: t.issued }) := by
  unfold Tables.insertDlq at h
  split at h
  · rename_i taken; cases h; exact .inl ⟨conflictsDlq_iff.1 taken, rfl⟩
  · rename_i free
    simp only [Option.ite_none_right_eq_some, Option.some.injEq] at h
    exact .inr ⟨fun hr => free (conflictsDlq_iff.2 hr), h.1.1, h.1.2.1, h.1.2.2, h.2.symm⟩

end Tables

/-! ## The database -/

/-- The tables together with the constraints PostgreSQL enforces on them. -/
structure Database extends Tables where
  valid : toTables.Valid

namespace Database

def empty : Database := { toTables := {}, valid := .empty }

theorem ext_tables {db db' : Database} (h : db.toTables = db'.toTables) : db = db' := by
  cases db; cases db'; cases h; rfl

/-- Execute a statement that may raise and keeps the constraints. -/
def exec (db : Database) (f : Tables → Option Tables)
    (keeps : ∀ {t t' : Tables}, t.Valid → f t = some t' → t'.Valid) : Option Database :=
  match h : f db.toTables with
  | some t => some { toTables := t, valid := keeps db.valid h }
  | none => none

theorem exec_eq_some {db db' : Database} {f : Tables → Option Tables}
    {keeps : ∀ {t t' : Tables}, t.Valid → f t = some t' → t'.Valid} :
    db.exec f keeps = some db' ↔ f db.toTables = some db'.toTables := by
  cases db'
  unfold exec
  split <;> rename_i h <;> simp [h]

def insertEndpoint (db : Database) (p : Endpoint) : Option Database :=
  db.exec (·.insertEndpoint p) .insertEndpoint

def insertEvent (db : Database) (e : Event) (outboxId : UUID) : Option Database :=
  db.exec (·.insertEvent e outboxId) .insertEvent

def insertAttempt (db : Database) (a : DeliveryAttempt) : Option Database :=
  db.exec (·.insertAttempt a) .insertAttempt

def insertDlq (db : Database) (d : DLQEntry) : Option Database :=
  db.exec (·.insertDlq d) .insertDlq

def updateEndpoint (db : Database) (id : UUID) (f : Endpoint → Endpoint) : Database :=
  { toTables := db.toTables.updateEndpoint id f, valid := db.valid.updateEndpoint id f }

def deleteEndpoint (db : Database) (id : UUID) : Database :=
  { toTables := db.toTables.deleteEndpoint id, valid := db.valid.deleteEndpoint id }

def deleteDlq (db : Database) (ids : List UUID) : Database :=
  { toTables := db.toTables.deleteDlq ids, valid := db.valid.deleteDlq ids }

def deleteOutbox (db : Database) (ids : List UUID) : Database :=
  { toTables := db.toTables.deleteOutbox ids, valid := db.valid.deleteOutbox ids }

def setStatus (db : Database) (id : UUID) (status : EventStatus) : Database :=
  { toTables := db.toTables.setStatus id status, valid := db.valid.setStatus id status }

end Database
end HookRelay
