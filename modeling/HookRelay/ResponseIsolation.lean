import HookRelay.SequentialDelivery
import HookRelay.System

/-!
# What one endpoint's response can do to the other deliveries

A fan-out is delivered to its endpoints one after the other in one call, so an exception on the way takes
the endpoints behind it along. The one step that an endpoint's response can make raise is the insert of
the attempt row.
-/

namespace HookRelay

/-- The endpoint has an attempt row for attempt 0 and, unless a success was recorded, a retry entry or a dead
letter. -/
def Settled (env : UUID → Reaction) (eventId : UUID) (p : Endpoint) (st : Store) : Prop :=
  st.db.HasRow eventId p.id 0 ∧ ((env p.id).reply.succeeded = true ∨
    st.redis.Holds ⟨eventId, p.id, 1⟩ ∨ st.db.HasDlq eventId p.id)

/-- `_process_record` returns, and has settled every matching endpoint without a prior success. -/
def Contained (cfg : Settings) (env : UUID → Reaction) (st : Store) (r : Record Message) (event : Event) : Prop :=
  ∃ st', processRecord cfg st r (fun _ => env) = some st' ∧
    ∀ p ∈ st.db.matching event.eventType, st.db.hasSuccess event.id p.id = false → Settled env event.id p st'

/-- `gen_random_uuid()` returns what it never returned before. -/
structure FreshIds (env : UUID → Reaction) (st : Store) (ps : List Endpoint) : Prop where
  new : ∀ p ∈ ps, (env p.id).dlqId ∉ st.db.issued
  distinct : (ps.map fun p => (env p.id).dlqId).Nodup

section

variable {cfg : Settings} {st st' : Store} {r : Record Message} {env : UUID → Reaction} {event : Event}
  {p : Endpoint} {ps : List Endpoint}

theorem Settled.spare (h : Settled env event.id p st) (spares : Spares 0 st st') : Settled env event.id p st' := by
  obtain ⟨row, fate⟩ := h
  refine ⟨spares.hasRow row, ?_⟩
  obtain success | held | dead := fate
  · exact .inl success
  · exact .inr (.inl (spares.held _ (Nat.one_ne_zero) held))
  · exact .inr (.inr (spares.hasDlq dead))

/-- Whether another endpoint's delivery has succeeded stays the same. -/
theorem Delivered.hasSuccess {reaction : Reaction} {d : Delivery} (h : Delivered reaction d st st')
    (other : p.id ≠ d.endpoint.id) :
    st'.db.hasSuccess d.event.id p.id = st.db.hasSuccess d.event.id p.id := by
  rw [Bool.eq_iff_iff, Tables.hasSuccess_iff, Tables.hasSuccess_iff]
  constructor
  · rintro ⟨a, mem, e, own, success⟩
    obtain old | ⟨-, new⟩ := h.attempts a mem
    · exact ⟨a, old, e, own, success⟩
    · exact absurd (own.symm.trans new) other
  · rintro ⟨a, mem, columns⟩
    exact ⟨a, h.spares.attempts mem, columns⟩

/-- The loop over endpoints whose responses can be stored. -/
theorem deliverAll_settles (event_ : event.id ∈ st.db.eventIds) (exist : ∀ p ∈ ps, p.id ∈ st.db.endpointIds)
    (nodup : (ps.map (·.id)).Nodup) (fresh : FreshIds env st ps)
    (fits : ∀ p ∈ ps, st.db.hasSuccess event.id p.id = false → (env p.id).reply.storable = true) :
    ∃ st', deliverAll cfg r (fun _ => env) event 0 st ps = some st' ∧ Spares 0 st st' ∧
      ∀ p ∈ ps, st.db.hasSuccess event.id p.id = false → Settled env event.id p st' := by
  induction ps generalizing st with
  | nil => exact ⟨st, rfl, .refl st, fun p none => absurd none List.not_mem_nil⟩
  | cons q ps ih =>
    rw [List.map_cons, List.nodup_cons] at nodup
    obtain ⟨new, nodup⟩ := nodup
    have distinct := fresh.distinct
    rw [List.map_cons, List.nodup_cons] at distinct
    let d : Delivery := { event, attemptNumber := 0, endpoint := q, stage := .checking, rest := ps }
    have returns : ∃ st₁, deliverToEndpoint cfg st r (env q.id) d = some st₁ :=
      deliverToEndpoint_returns event_ (exist q List.mem_cons_self) (fresh.new q List.mem_cons_self)
        (fits q List.mem_cons_self)
    obtain ⟨st₁, first⟩ := returns
    have delivered := deliverToEndpoint_delivered first
    have spares : Spares 0 st st₁ := delivered.spares
    have others : ∀ p ∈ ps, st₁.db.hasSuccess event.id p.id = st.db.hasSuccess event.id p.id := fun p hp =>
      delivered.hasSuccess fun same => new (same ▸ List.mem_map_of_mem hp)
    have event₁ : event.id ∈ st₁.db.eventIds := by rwa [Tables.eventIds, spares.events]
    have exist₁ : ∀ p ∈ ps, p.id ∈ st₁.db.endpointIds := fun p hp => by
      rw [Tables.endpointIds, spares.endpoints]
      exact exist p (List.mem_cons_of_mem _ hp)
    have fresh₁ : FreshIds env st₁ ps := by
      refine ⟨fun p hp issued => ?_, distinct.2⟩
      obtain old | same := delivered.issued _ issued
      · exact fresh.new p (List.mem_cons_of_mem _ hp) old
      · exact distinct.1 (same ▸ List.mem_map_of_mem hp)
    have fits₁ : ∀ p ∈ ps, st₁.db.hasSuccess event.id p.id = false → (env p.id).reply.storable = true :=
      fun p hp prior => fits p (List.mem_cons_of_mem _ hp) (others p hp ▸ prior)
    obtain ⟨st', rest, spares', settled⟩ := ih event₁ exist₁ nodup fresh₁ fits₁
    refine ⟨st', ?_, spares.trans spares', fun p hp prior => ?_⟩
    · rw [deliverAll, first]
      exact rest
    · obtain rfl | hp := List.mem_cons.1 hp
      · have fate : Settled env event.id p st₁ := ⟨delivered.row prior, delivered.fate prior⟩
        exact fate.spare spares'
      · exact settled p hp ((others p hp).trans prior)

/-- The loop raises at the first response that cannot be stored. -/
theorem deliverAll_storable (nodup : (ps.map (·.id)).Nodup)
    (h : deliverAll cfg r (fun _ => env) event 0 st ps = some st') :
    ∀ p ∈ ps, st.db.hasSuccess event.id p.id = false → (env p.id).reply.storable = true := by
  induction ps generalizing st with
  | nil => exact fun p none => absurd none List.not_mem_nil
  | cons q ps ih =>
    rw [List.map_cons, List.nodup_cons] at nodup
    obtain ⟨new, nodup⟩ := nodup
    obtain ⟨st₁, first, rest⟩ := Option.bind_eq_some_iff.1 h
    have delivered := deliverToEndpoint_delivered first
    intro p hp prior
    obtain rfl | hp := List.mem_cons.1 hp
    · exact delivered.storable prior
    · have other : p.id ≠ q.id := fun same => new (same ▸ List.mem_map_of_mem hp)
      exact ih nodup rest p hp ((delivered.hasSuccess other).trans prior)

theorem processRecord_fanOut (fanOut : r.value = .fanOut event.id)
    (found : st.db.getEvent event.id = some event) : processRecord cfg st r (fun _ => env) =
      deliverAll cfg r (fun _ => env) event 0 st (st.db.matching event.eventType) := by
  unfold processRecord
  rw [fanOut, Message.fanOut_eventId, found]
  rfl

theorem Contained.storable (fanOut : r.value = .fanOut event.id)
    (found : st.db.getEvent event.id = some event) (h : Contained cfg env st r event) :
    ∀ p ∈ st.db.matching event.eventType,
      st.db.hasSuccess event.id p.id = false → (env p.id).reply.storable = true := by
  obtain ⟨st', returned, -⟩ := h
  rw [processRecord_fanOut fanOut found] at returned
  exact deliverAll_storable (Tables.nodup_map_filter _ st.db.valid.endpoints_pkey) returned

/-- The deliveries of a fan-out are isolated if and only if the response of every endpoint without a prior
success can be stored. -/
theorem isolated_iff (fanOut : r.value = .fanOut event.id) (found : st.db.getEvent event.id = some event)
    (fresh : FreshIds env st (st.db.matching event.eventType)) :
    Contained cfg env st r event ↔ ∀ p ∈ st.db.matching event.eventType,
      st.db.hasSuccess event.id p.id = false → (env p.id).reply.storable = true := by
  constructor
  · exact Contained.storable fanOut found
  · intro fits
    have event_ : event.id ∈ st.db.eventIds :=
      Tables.mem_eventIds.2 ⟨event, (Tables.getEvent_some found).1, rfl⟩
    have exist : ∀ p ∈ st.db.matching event.eventType, p.id ∈ st.db.endpointIds := fun p hp =>
      Tables.mem_endpointIds.2 ⟨p, (Tables.mem_matching.1 hp).1, rfl⟩
    have nodup : ((st.db.matching event.eventType).map (·.id)).Nodup :=
      Tables.nodup_map_filter _ st.db.valid.endpoints_pkey
    obtain ⟨st', returned, -, settled⟩ := deliverAll_settles event_ exist nodup fresh fits
    exact ⟨st', (processRecord_fanOut fanOut found).trans returned, settled⟩

end

/-- The sample event, and two endpoints that subscribe to it. -/
def pairTables : Tables where
  endpoints := [sampleEndpoint.endpoint (.ofNat 1), sampleEndpoint.endpoint (.ofNat 3)]
  events := [sampleEvent.event (.ofNat 2)]
  issued := [.ofNat 1, .ofNat 2, .ofNat 3]

theorem pairTables_valid : pairTables.Valid := by
  constructor <;> decide

def pairStore : Store := { initial.store with db := ⟨pairTables, pairTables_valid⟩ }

/-- Each endpoint answers as given, and its dead letter gets the identifier behind its own. -/
def answering (replies : List HttpResult) (id : UUID) : Reaction :=
  ⟨(replies[id.int.toNat / 2]?).getD .timeout, .ofNat (id.int.toNat + 9), 0⟩

/-- A response of 500 and a timeout. -/
theorem isolated_failures :
    Contained {} (answering [.response 500 [0x68, 0x69], .timeout]) pairStore
      (sampleRecord 0 (.fanOut (.ofNat 2))) (sampleEvent.event (.ofNat 2)) := by
  refine (isolated_iff rfl rfl ⟨by decide, by decide⟩).2 ?_
  decide

/-- A response of 200 whose text is U+0000. -/
theorem nul_stops_deliveries :
    ¬ Contained {} (answering [.response 200 [0], .response 200 []]) pairStore
      (sampleRecord 0 (.fanOut (.ofNat 2))) (sampleEvent.event (.ofNat 2)) := by
  intro h
  have stored := h.storable rfl rfl (sampleEndpoint.endpoint (.ofNat 1)) List.mem_cons_self (by decide)
  exact absurd stored (by decide)

end HookRelay
