import HookRelay.CommitSafety
import HookRelay.Steps

/-!
# What a step keeps and what it adds

The facts about one step that the invariants of the system share: how the tables develop, where
an attempt row, a task, a record and a message come from, and that the topic, the processed
records and the history only grow.
-/

namespace HookRelay

/-! ## Tables -/

/-- How the tables develop. No identifier is issued twice, so no deleted endpoint comes back; an
attempt row goes only with its endpoint; an event keeps its type. -/
structure Tables.Evolves (t t' : Tables) : Prop where
  issued : ∀ x ∈ t.issued, x ∈ t'.issued
  endpoints : ∀ x ∈ t'.endpointIds, x ∈ t.issued → x ∈ t.endpointIds
  attempts : ∀ a ∈ t.attempts, a.endpointId ∈ t'.endpointIds → a ∈ t'.attempts
  events : ∀ e ∈ t.events, ∃ e' ∈ t'.events, e'.id = e.id ∧ e'.eventType = e.eventType

namespace Tables.Evolves

variable {t : Tables}

theorem refl (t : Tables) : t.Evolves t where
  issued _ h := h
  endpoints _ h _ := h
  attempts _ h _ := h
  events e h := ⟨e, h, rfl, rfl⟩

theorem insertEndpoint {p : Endpoint} (fresh : p.id ∉ t.issued) :
    t.Evolves { t with endpoints := t.endpoints ++ [p], issued := p.id :: t.issued } :=
  { refl t with
    issued := fun _ h => List.mem_cons_of_mem _ h
    endpoints := fun x hx hi => by
      obtain ⟨q, hq, rfl⟩ := List.mem_map.1 hx
      rcases List.mem_append.1 hq with hq | hq
      · exact List.mem_map_of_mem hq
      · rw [List.mem_singleton.1 hq] at hi; exact absurd hi fresh
    attempts := fun _ h _ => h }

theorem updateEndpoint (id : UUID) (f : Endpoint → Endpoint) : t.Evolves (t.updateEndpoint id f) :=
  { refl t with
    endpoints := fun _ hx _ => t.updateEndpoint_ids id f ▸ hx
    attempts := fun _ h _ => h }

theorem deleteEndpoint (id : UUID) : t.Evolves (t.deleteEndpoint id) :=
  { refl t with
    endpoints := fun x hx _ => by
      obtain ⟨q, hq, rfl⟩ := List.mem_map.1 hx
      exact List.mem_map_of_mem (List.mem_filter.1 hq).1
    attempts := fun a ha hx => by
      obtain ⟨q, hq, he⟩ := List.mem_map.1 hx
      exact List.mem_filter.2 ⟨ha, he ▸ (List.mem_filter.1 hq).2⟩ }

theorem insertEvent (e : Event) (o : OutboxEntry) :
    t.Evolves { t with
      events := t.events ++ [e], outbox := t.outbox ++ [o], issued := o.id :: e.id :: t.issued } :=
  { refl t with
    issued := fun _ h => List.mem_cons_of_mem _ (List.mem_cons_of_mem _ h)
    events := fun e he => ⟨e, List.mem_append_left _ he, rfl, rfl⟩ }

theorem insertAttempt (a : DeliveryAttempt) : t.Evolves { t with attempts := t.attempts ++ [a] } :=
  { refl t with attempts := fun _ h _ => List.mem_append_left _ h }

theorem insertDlq (d : DLQEntry) :
    t.Evolves { t with dlq := t.dlq ++ [d], issued := d.id :: t.issued } :=
  { refl t with issued := fun _ h => List.mem_cons_of_mem _ h }

theorem deleteDlq (ids : List UUID) : t.Evolves (t.deleteDlq ids) := { refl t with }

theorem requeue (ids : List UUID) (id : UUID) (status : EventStatus) :
    t.Evolves ((t.deleteDlq ids).setStatus id status) :=
  { refl t with
    events := fun e he => ⟨_, List.mem_map_of_mem he, by split <;> simp⟩ }

theorem deleteOutbox (ids : List UUID) : t.Evolves (t.deleteOutbox ids) := { refl t with }

theorem eventIds {t' : Tables} (h : t.Evolves t') {x : UUID} (hx : x ∈ t.eventIds) :
    x ∈ t'.eventIds := by
  obtain ⟨e, he, rfl⟩ := Tables.mem_eventIds.1 hx
  obtain ⟨e', he', same, -⟩ := h.events e he
  exact Tables.mem_eventIds.2 ⟨e', he', same⟩

/-- An attempt row of an endpoint that is still there afterwards is still there. -/
theorem hasRow {t' : Tables} (h : t.Evolves t') {e p : UUID} {n : Nat} (hr : t.HasRow e p n)
    (hp : p ∈ t'.endpointIds) : t'.HasRow e p n := by
  obtain ⟨a, ha, he, rfl, hn⟩ := hr
  exact ⟨a, h.attempts a ha hp, he, rfl, hn⟩

theorem hasSuccess {t' : Tables} (h : t.Evolves t') {e p : UUID} (hs : t.hasSuccess e p = true)
    (hp : p ∈ t'.endpointIds) : t'.hasSuccess e p = true := by
  obtain ⟨a, ha, he, rfl, hn⟩ := Tables.hasSuccess_iff.1 hs
  exact Tables.hasSuccess_iff.2 ⟨a, h.attempts a ha hp, he, rfl, hn⟩

end Tables.Evolves

/-! ## Calls -/

section Calls

variable {cfg : Settings} {st st' : Store} {r : Record Message} {c c' : Call} {a : TaskAction}

theorem Moves.resolving (h : Moves cfg st r .resolving a st' c') :
    st' = st ∧ c' = resolveTargets st.db.toTables r.value := by
  cases h
  exact ⟨rfl, rfl⟩

theorem Moves.evolves (h : Moves cfg st r c a st' c') : st.db.toTables.Evolves st'.db.toTables := by
  cases h with
  | record _ _ _ _ tables => exact tables ▸ .insertAttempt _
  | insertDlq _ _ _ _ _ _ tables => exact tables ▸ .insertDlq _
  | _ => exact .refl _

theorem Moves.history_mono (h : Moves cfg st r c a st' c') {x : Happening} (hx : x ∈ st.history) :
    x ∈ st'.history := by
  cases h with
  | post | record | schedule => exact List.mem_cons_of_mem _ hx
  | _ => exact hx

theorem Moves.outbox_eq (h : Moves cfg st r c a st' c') : st'.db.outbox = st.db.outbox := by
  cases h with
  | record _ _ _ _ tables => rw [Store.log, tables]
  | insertDlq _ _ _ _ _ _ tables => rw [tables]
  | _ => rfl

theorem Moves.endpoints_eq (h : Moves cfg st r c a st' c') :
    st'.db.endpoints = st.db.endpoints := by
  cases h with
  | record _ _ _ _ tables => rw [Store.log, tables]
  | insertDlq _ _ _ _ _ _ tables => rw [tables]
  | _ => rfl

theorem Moves.requests_eq (h : Moves cfg st r c a st' c') : st'.requests = st.requests := by
  cases h <;> rfl

/-- A message a call puts into Redis is the one of a failed delivery's next attempt. -/
theorem Moves.message_cases (h : Moves cfg st r c a st' c') {k : Member} {m : Message}
    (hm : st'.redis.data.lookup k = some m) : st.redis.data.lookup k = some m ∨
      ∃ d result, c = .delivering d ∧ d.stage = .failed result ∧ d.exhausted cfg result = false ∧
        k = d.nextMember ∧ m = d.nextMessage := by
  cases h with
  | schedule stage left =>
    rcases RedisRetryScheduler.lookup_schedule hm with ⟨rfl, rfl⟩ | hm
    · exact .inr ⟨_, _, rfl, stage, left, rfl, rfl⟩
    · exact .inl hm
  | cancel => exact .inl (RedisRetryScheduler.lookup_cancel hm)
  | _ => exact .inl hm

end Calls

/-! ## The system -/

/-- The messages a scheduler has polled and not finished with. -/
def Scheduler.messages : Scheduler → List Message
  | .idle => []
  | .due messages => messages
  | .cancelling m rest => m :: rest

@[simp] theorem Scheduler.next_messages (ms : List Message) : (Scheduler.next ms).messages = ms := by
  cases ms <;> rfl

/-- The message is in the pending topic, stored in Redis, or in the hands of a scheduler. -/
def State.Carries (s : State) (m : Message) : Prop :=
  (∃ r ∈ s.group.log, r.value = m) ∨ (∃ k, s.store.redis.data.lookup k = some m) ∨
    ∃ sch ∈ s.schedulers, m ∈ sch.messages

/-- A request or a relay publishes the event's fan-out, or has published it. -/
def State.FansOut (s : State) (eventId : UUID) : Prop :=
  (∃ q ∈ s.store.requests, q.eventId = eventId) ∨
    ∃ relay ∈ s.relays, ∃ o ∈ relay.locked, o.eventId = eventId

/-- The life of a request: it publishes, deletes and commits, or is rolled back. -/
inductive Request.Moves (t : Tables) (q : Request) : RequestAction → RequestStage → Prop where
  | publish (p o : Nat) (stage : q.stage = .locked) :
      Moves t q (.publish p o) (.published ⟨p, o, .fanOut q.eventId⟩)
  | delete {r : Record Message} (stage : q.stage = .published r) :
      Moves t q .delete (.deleted r (State.deletes t q))
  | commit {r : Record Message} {rows : List UUID} (stage : q.stage = .deleted r rows) :
      Moves t q .commit (.committed r rows)
  | abort (opened : q.isOpen = true) : Moves t q .abort .aborted

/-- The rows the relay has published and not committed. -/
def Relay.published : Relay → List OutboxEntry
  | .idle => []
  | .batch _ done => done

section Transition

variable {cfg : Settings} {s s' : State} {a : Action}

/-- The consumer group takes a step of its own or none. -/
theorem Transition.group_step (h : Transition cfg s a s') :
    s'.group = s.group ∨
      ∃ b, s.group.step cfg.workerConcurrency (fun _ => .resolving) b = some s'.group := by
  cases h with
  | requestPublish _ _ appended | relayPublish _ appended | schedulerPublish _ _ appended
  | duplicate _ appended => exact .inr ⟨.append _, appended⟩
  | spawn => exact .inr ⟨.loop .spawn, rfl⟩
  | crash crashed => exact .inr ⟨.loop (.crash _), crashed⟩
  | loop stepped => exact .inr ⟨.loop _, stepped⟩
  | @task i _ _ _ call found =>
    exact .inr ⟨.advance i call, by simp [ConsumerGroup.step, ConsumerGroup.advance, found]⟩
  | finish _ _ _ finished => exact .inr ⟨.finish _ _, finished⟩
  | _ => exact .inl rfl

/-- The invariant of the consumer group holds in every reachable state of the system. -/
theorem group_inv {C : State → Action → Prop} (h : Lts.Reachable (State.step cfg) C initial s) :
    ConsumerGroup.Inv (fun _ => 0) s.group := by
  refine h.invariant (I := fun s => ConsumerGroup.Inv (fun _ => 0) s.group) ?_ .initial
  intro s a s' inv _ hs
  rcases (step_transition hs).group_step with same | ⟨b, step⟩
  · rwa [same]
  · exact inv.step step

theorem Transition.evolves (h : Transition cfg s a s') :
    s.store.db.toTables.Evolves s'.store.db.toTables := by
  cases h with
  | createEndpoint fresh tables => exact tables ▸ .insertEndpoint fresh
  | updateEndpoint => exact .updateEndpoint _ _
  | deleteEndpoint => exact .deleteEndpoint _
  | ingest _ _ tables => exact tables ▸ .insertEvent _ _
  | deleteDlq => exact .deleteDlq _
  | requestCommit => exact .requeue _ _ _
  | relayCommit => exact .deleteOutbox _
  | task _ moved => exact moved.evolves
  | _ => exact .refl _

/-- An attempt row is written only by the call of a task. -/
theorem Transition.attempt_cases (h : Transition cfg s a s') {row : DeliveryAttempt}
    (hr : row ∈ s'.store.db.attempts) : row ∈ s.store.db.attempts ∨
      ∃ (i : Nat) (t : Task Message Call) (d : Delivery) (result : HttpResult),
        a = .task i .record ∧ s.group.tasks[i]? = some t ∧ t.data = .delivering d ∧
        d.stage = .recording result ∧ row = d.row result ∧ row.endpointId ∈ s.store.db.endpointIds ∧
        s'.store.db.endpointIds = s.store.db.endpointIds := by
  cases h with
  | createEndpoint _ tables | ingest _ _ tables =>
    change row ∈ Tables.attempts _ at hr
    rw [State.setDb, tables] at hr; exact .inl hr
  | deleteEndpoint => exact .inl (List.mem_filter.1 hr).1
  | @task i _ t _ call found moved =>
    obtain ⟨worker, record, c⟩ := t
    cases moved with
    | @record d result db stage free unlocked endpoint tables =>
      have tables' : ({ s.store with db }.log (.recorded record (d.row result))).db.toTables = _ := tables
      rw [tables'] at hr
      rcases List.mem_append.1 hr with hr | hr
      · exact .inl hr
      · rw [List.mem_singleton] at hr
        subst hr
        exact .inr ⟨i, _, d, result, rfl, found, rfl, stage, rfl, endpoint, by
          simp only [Tables.endpointIds, tables']⟩
    | insertDlq _ _ _ _ _ _ tables => rw [tables] at hr; exact .inl hr
    | _ => exact .inl hr
  | _ => exact .inl hr

/-- An outbox row is written with its event, under identifiers never issued before. -/
theorem Transition.outbox_cases (h : Transition cfg s a s') {o : OutboxEntry}
    (ho : o ∈ s'.store.db.outbox) : o ∈ s.store.db.outbox ∨
      (o.id ∉ s.store.db.issued ∧ o.eventId ∉ s.store.db.issued) := by
  cases h with
  | createEndpoint _ tables =>
    change o ∈ Tables.outbox _ at ho
    rw [State.setDb, tables] at ho; exact .inl ho
  | ingest fresh freshOutbox tables =>
    change o ∈ Tables.outbox _ at ho
    rw [State.setDb, tables] at ho
    rcases List.mem_append.1 ho with ho | ho
    · exact .inl ho
    · rw [List.mem_singleton.1 ho]; exact .inr ⟨freshOutbox, fresh⟩
  | relayCommit => exact .inl (List.mem_filter.1 ho).1
  | task _ moved => exact .inl (moved.outbox_eq ▸ ho)
  | _ => exact .inl ho

/-- An endpoint goes only by its deletion. -/
theorem Transition.endpoint_kept (h : Transition cfg s a s') {p : UUID}
    (hp : p ∈ s.store.db.endpointIds) (kept : a ≠ .deleteEndpoint p) :
    p ∈ s'.store.db.endpointIds := by
  cases h with
  | createEndpoint _ tables =>
    rw [State.setDb, tables]
    exact List.mem_map.2 ((Tables.mem_endpointIds.1 hp).imp fun q hq =>
      ⟨List.mem_append_left _ hq.1, hq.2⟩)
  | updateEndpoint => exact s.store.db.updateEndpoint_ids _ _ ▸ hp
  | deleteEndpoint =>
    obtain ⟨q, hq, rfl⟩ := Tables.mem_endpointIds.1 hp
    exact List.mem_map_of_mem (List.mem_filter.2 ⟨hq, decide_eq_true fun he => kept (by rw [he])⟩)
  | ingest _ _ tables => rw [State.setDb, tables]; exact hp
  | task _ moved =>
    rw [Tables.endpointIds, moved.endpoints_eq]
    exact hp
  | _ => exact hp

/-- An endpoint row is an old one, one of a new endpoint, or one an update has just written. -/
theorem Transition.endpoint_cases (h : Transition cfg s a s') {q : Endpoint}
    (hq : q ∈ s'.store.db.endpoints) : q ∈ s.store.db.endpoints ∨ q.id ∉ s.store.db.issued ∨
      ∃ id body p p', a = .updateEndpoint id body ∧ s.store.db.getEndpoint id = some p ∧
        body.apply p = some p' ∧ q = { p' with id } := by
  cases h with
  | createEndpoint fresh tables =>
    change q ∈ Tables.endpoints _ at hq
    rw [State.setDb, tables] at hq
    rcases List.mem_append.1 hq with hq | hq
    · exact .inl hq
    · rw [List.mem_singleton.1 hq]
      exact .inr (.inl fresh)
  | @updateEndpoint id body p p' found applied =>
    obtain ⟨q₀, hq₀, rfl⟩ := List.mem_map.1 hq
    split
    · rename_i same
      exact .inr (.inr ⟨id, body, p, p', rfl, found, applied, by rw [same]⟩)
    · exact .inl hq₀
  | deleteEndpoint => exact .inl (List.mem_filter.1 hq).1
  | ingest _ _ tables =>
    change q ∈ Tables.endpoints _ at hq
    rw [State.setDb, tables] at hq
    exact .inl hq
  | task _ moved => exact .inl (moved.endpoints_eq ▸ hq)
  | _ => exact .inl hq

theorem Transition.history_mono (h : Transition cfg s a s') {x : Happening}
    (hx : x ∈ s.store.history) : x ∈ s'.store.history := by
  cases h with
  | requestPublish | relayPublish | schedulerPublish | duplicate => exact List.mem_cons_of_mem _ hx
  | task _ moved => exact moved.history_mono hx
  | _ => exact hx

/-- A POST is made by the call of a task, for the delivery it is at. -/
theorem Transition.made_cases (h : Transition cfg s a s') {r : Record Message} {post : Post}
    (hx : .posted r post ∈ s'.store.history) : .posted r post ∈ s.store.history ∨
      ∃ i d result, a = .task i (.post result) ∧ s.delivery i = some d ∧ post = d.post result := by
  cases h with
  | requestPublish | relayPublish | schedulerPublish | duplicate =>
    exact .inl (List.mem_of_ne_of_mem (by simp) hx)
  | @task i _ t _ _ found moved =>
    obtain ⟨worker, record, c⟩ := t
    cases moved with
    | @post d result =>
      rcases List.mem_cons.1 hx with new | hx
      · cases new
        exact .inr ⟨i, d, result, rfl, State.delivery_eq_some.2 ⟨_, found, rfl⟩, rfl⟩
      · exact .inl hx
    | record | schedule => exact .inl (List.mem_of_ne_of_mem (by simp) hx)
    | _ => exact .inl hx
  | _ => exact .inl hx

/-- A record is published by a request or a relay, by a scheduler, or as a duplicate. -/
theorem Transition.log_cases (h : Transition cfg s a s') {r : Record Message}
    (hr : r ∈ s'.group.log) : r ∈ s.group.log ∨ (∃ e, s.FansOut e ∧ r.value = .fanOut e) ∨
      (∃ (w : Nat) (rest : List Message), s.schedulers[w]? = some (.due (r.value :: rest)) ∧
        r.value.endpointId.isSome = true) ∨ ∃ r' ∈ s.group.log, r.value = r'.value := by
  have new : ∀ {r' : Record Message} {group : ConsumerGroup Message Call},
      s.group.append r' = some group → r ∈ group.log → r ∈ s.group.log ∨ r = r' := by
    intro r' group appended hr
    rw [(ConsumerGroup.append_eq_some appended).1] at hr
    simpa using hr
  cases h with
  | requestPublish found _ appended =>
    exact (new appended hr).imp_right fun he =>
      .inl ⟨_, .inl ⟨_, List.mem_of_getElem? found, rfl⟩, by rw [he]⟩
  | relayPublish found appended =>
    exact (new appended hr).imp_right fun he =>
      .inl ⟨_, .inr ⟨_, List.mem_of_getElem? found, _, List.mem_cons_self, rfl⟩, by rw [he]⟩
  | schedulerPublish found targeted appended =>
    refine (new appended hr).imp_right fun he => .inr (.inl ?_)
    subst he
    exact ⟨_, _, found, targeted⟩
  | duplicate present appended =>
    exact (new appended hr).imp_right fun he =>
      .inr (.inr ⟨_, present, by rw [he]⟩)
  | crash stepped | loop stepped => exact .inl ((ConsumerGroup.loopStep_log stepped).1 ▸ hr)
  | finish _ _ _ finished =>
    obtain ⟨_, _, log, _⟩ := ConsumerGroup.finish_eq_some finished
    exact .inl (log ▸ hr)
  | _ => exact .inl hr

theorem Transition.log_mono (h : Transition cfg s a s') {r : Record Message}
    (hr : r ∈ s.group.log) : r ∈ s'.group.log := by
  have kept : ∀ {r' : Record Message} {group : ConsumerGroup Message Call},
      s.group.append r' = some group → r ∈ group.log := fun appended => by
    rw [(ConsumerGroup.append_eq_some appended).1]; exact List.mem_append_left _ hr
  cases h with
  | requestPublish _ _ appended | relayPublish _ appended | schedulerPublish _ _ appended
  | duplicate _ appended => exact kept appended
  | crash stepped | loop stepped => exact (ConsumerGroup.loopStep_log stepped).1 ▸ hr
  | finish _ _ _ finished =>
    obtain ⟨_, _, log, _⟩ := ConsumerGroup.finish_eq_some finished
    exact log ▸ hr
  | _ => exact hr

/-- A record counts as processed only by the normal return of a call on it. -/
theorem Transition.processed_cases (h : Transition cfg s a s') {r : Record Message}
    (hr : r ∈ s'.group.processed) : r ∈ s.group.processed ∨
      ∃ i t, a = .finish i .returned ∧ s.group.tasks[i]? = some t ∧ t.record = r ∧
        t.data = .finished := by
  cases h with
  | requestPublish _ _ appended | relayPublish _ appended | schedulerPublish _ _ appended
  | duplicate _ appended =>
    rw [(ConsumerGroup.append_eq_some appended).1] at hr; exact .inl hr
  | crash stepped | loop stepped => exact .inl ((ConsumerGroup.loopStep_log stepped).2 ▸ hr)
  | @finish i o t group found pure ended finished =>
    obtain ⟨t', found', _, _, processed⟩ := ConsumerGroup.finish_eq_some finished
    cases found.symm.trans found'
    change r ∈ group.processed at hr
    rw [processed] at hr
    cases o with
    | returned =>
      rcases List.mem_append.1 hr with hr | hr
      · exact .inl hr
      · exact .inr ⟨i, t, rfl, found, (List.mem_singleton.1 hr).symm, ended rfl⟩
    | poisonPill => exact absurd rfl pure
    | raised | cancelled => exact .inl hr
  | _ => exact .inl hr

theorem Transition.processed_mono (h : Transition cfg s a s') {r : Record Message}
    (hr : r ∈ s.group.processed) : r ∈ s'.group.processed := by
  cases h with
  | requestPublish _ _ appended | relayPublish _ appended | schedulerPublish _ _ appended
  | duplicate _ appended =>
    rw [(ConsumerGroup.append_eq_some appended).1]
    exact hr
  | crash stepped | loop stepped => exact (ConsumerGroup.loopStep_log stepped).2 ▸ hr
  | finish _ _ _ finished =>
    obtain ⟨_, _, _, _, processed⟩ := ConsumerGroup.finish_eq_some finished
    show r ∈ ConsumerGroup.processed _
    rw [processed]
    split
    · exact List.mem_append_left _ hr
    · exact hr
  | _ => exact hr

/-- The log grows by one record at most, which it did not have. -/
theorem Transition.log_eq (h : Transition cfg s a s') :
    s'.group.log = s.group.log ∨ ∃ r, r ∉ s.group.log ∧ s'.group.log = s.group.log ++ [r] := by
  have new : ∀ {r : Record Message} {group : ConsumerGroup Message Call}, s.group.append r = some group →
      ∃ r, r ∉ s.group.log ∧ group.log = s.group.log ++ [r] := by
    intro r group appended
    obtain ⟨same, behind⟩ := ConsumerGroup.append_eq_some appended
    exact ⟨r, fun old => absurd (behind r old rfl) (lt_irrefl _), by rw [same]⟩
  cases h with
  | requestPublish _ _ appended | relayPublish _ appended | schedulerPublish _ _ appended
  | duplicate _ appended => exact .inr (new appended)
  | crash stepped | loop stepped => exact .inl (ConsumerGroup.loopStep_log stepped).1
  | finish _ _ _ finished =>
    obtain ⟨_, _, log, _⟩ := ConsumerGroup.finish_eq_some finished
    exact .inl log
  | _ => exact .inl rfl

/-- A task is an old one, has just been created, or is the one whose call took the step. -/
theorem Transition.task_cases (h : Transition cfg s a s')
    (inv : ConsumerGroup.Inv (fun _ => 0) s.group) {t' : Task Message Call}
    (ht : t' ∈ s'.group.tasks) : t' ∈ s.group.tasks ∨
      (t'.data = .resolving ∧ t'.record ∈ s.group.log) ∨
      ∃ i b t, a = .task i b ∧ s.group.tasks[i]? = some t ∧ t'.record = t.record ∧
        Moves cfg s.store t.record t.data b s'.store t'.data := by
  cases h with
  | requestPublish _ _ appended | relayPublish _ appended | schedulerPublish _ _ appended
  | duplicate _ appended =>
    rw [(ConsumerGroup.append_eq_some appended).1] at ht; exact .inl ht
  | crash stepped | loop stepped =>
    refine (ConsumerGroup.loopStep_tasks stepped ht).imp_right fun ⟨data, w, hw, hb⟩ => .inl ?_
    exact ⟨data, (inv.workers w hw).batch_log _ hb⟩
  | @task i b t store call found moved =>
    rcases List.mem_or_eq_of_mem_set ht with ht | rfl
    · exact .inl ht
    · exact .inr (.inr ⟨i, b, t, rfl, found, rfl, moved⟩)
  | finish _ _ _ finished =>
    obtain ⟨_, _, _, tasks, _⟩ := ConsumerGroup.finish_eq_some finished
    exact .inl (List.mem_of_mem_eraseIdx (tasks ▸ ht))
  | _ => exact .inl ht

/-- A message in circulation is an old one, names only an event, or was just stored for the next
attempt of a failed delivery. -/
theorem Transition.message_cases (h : Transition cfg s a s') {m : Message} (hm : s'.Carries m) :
    s.Carries m ∨ (∃ e, s.FansOut e ∧ m = .fanOut e) ∨
      ∃ (i : Nat) (t : Task Message Call) (d : Delivery) (result : HttpResult),
        s.group.tasks[i]? = some t ∧ t.data = .delivering d ∧ d.stage = .failed result ∧
        d.exhausted cfg result = false ∧ m = d.nextMessage := by
  rcases hm with ⟨r, hr, rfl⟩ | ⟨k, hk⟩ | ⟨sch, hsch, hm⟩
  · rcases h.log_cases hr with hr | hf | ⟨w, rest, found, -⟩ | ⟨r', hr', he⟩
    · exact .inl (.inl ⟨r, hr, rfl⟩)
    · exact .inr (.inl hf)
    · exact .inl (.inr (.inr ⟨_, List.mem_of_getElem? found, List.mem_cons_self⟩))
    · exact .inl (.inl ⟨r', hr', he.symm⟩)
  · cases h with
    | schedulerCancel => exact .inl (.inr (.inl ⟨k, RedisRetryScheduler.lookup_cancel hk⟩))
    | task found moved =>
      rcases moved.message_cases hk with hk | ⟨d, result, hd, stage, left, -, rfl⟩
      · exact .inl (.inr (.inl ⟨k, hk⟩))
      · exact .inr (.inr ⟨_, _, d, result, found, hd, stage, left, rfl⟩)
    | _ => exact .inl (.inr (.inl ⟨k, hk⟩))
  · have old : sch ∈ s.schedulers → s.Carries m := fun h => .inr (.inr ⟨sch, h, hm⟩)
    have set : ∀ {w : Nat} {sch₀ : Scheduler}, (m ∈ sch₀.messages → s.Carries m) →
        sch ∈ s.schedulers.set w sch₀ → s.Carries m := fun new hs =>
      (List.mem_or_eq_of_mem_set hs).elim old fun he => new (he ▸ hm)
    left
    cases h with
    | poll =>
      refine set (fun hm => ?_) hsch
      rw [Scheduler.next_messages] at hm
      exact .inr (.inl (RedisRetryScheduler.mem_pollDue hm))
    | @schedulerPublish w _ _ m₀ rest _ found =>
      refine set (fun hm => ?_) hsch
      exact .inr (.inr ⟨.due (m₀ :: rest), List.mem_of_getElem? found, hm⟩)
    | schedulerCancel found | schedulerSkip found =>
      refine set (fun hm => ?_) hsch
      rw [Scheduler.next_messages] at hm
      exact .inr (.inr ⟨_, List.mem_of_getElem? found, List.mem_cons_of_mem _ hm⟩)
    | spawn =>
      rcases List.mem_append.1 hsch with hs | hs
      · exact old hs
      · rw [List.mem_singleton.1 hs] at hm; cases hm
    | crash => exact set (fun hm => by cases hm) hsch
    | _ => exact old hsch

/-- A scheduler is about to cancel an entry only when it has just published its message. -/
theorem Transition.cancelling_cases (h : Transition cfg s a s') {m : Message} {rest : List Message}
    (hm : .cancelling m rest ∈ s'.schedulers) : .cancelling m rest ∈ s.schedulers ∨
      ∃ p o, s.group.append ⟨p, o, m⟩ = some s'.group ∧
        s'.store.history = .published ⟨p, o, m⟩ :: s.store.history := by
  have set : ∀ {w : Nat} {new : Scheduler}, .cancelling m rest ∈ s.schedulers.set w new →
      .cancelling m rest ∈ s.schedulers ∨ new = .cancelling m rest := fun hm =>
    (List.mem_or_eq_of_mem_set hm).imp_right Eq.symm
  have next : ∀ {ms : List Message}, Scheduler.next ms ≠ .cancelling m rest := by
    intro ms same
    cases ms <;> cases same
  cases h with
  | poll | schedulerCancel | schedulerSkip => exact .inl ((set hm).resolve_right next)
  | @schedulerPublish w p o _ _ _ found _ appended =>
    rcases set hm with hm | same
    · exact .inl hm
    · cases same
      exact .inr ⟨p, o, appended, rfl⟩
  | spawn =>
    rcases List.mem_append.1 hm with hm | hm
    · exact .inl hm
    · cases List.mem_singleton.1 hm
  | crash => exact .inl ((set hm).resolve_right fun same => by cases same)
  | _ => exact .inl hm

/-- A retry entry goes only by the cancel of a call that dead-letters under its number, or of a
scheduler that has published its message. -/
theorem Transition.holds_cases (h : Transition cfg s a s') {k : Member}
    (hk : s.store.redis.Holds k) : s'.store.redis.Holds k ∨
      (∃ (i : Nat) (t : Task Message Call) (d : Delivery), a = .task i (.cancel true) ∧
        s.group.tasks[i]? = some t ∧ t.data = .delivering d ∧ d.stage = .cancelling ∧
        d.member = k) ∨
      ∃ (w : Nat) (m : Message) (rest : List Message), a = .scheduler w .cancel ∧
        s.schedulers[w]? = some (.cancelling m rest) ∧ m.eventId = k.eventId ∧
        m.endpointId = some k.endpointId ∧ m.attempt = k.attemptNumber := by
  cases h with
  | @schedulerCancel w m endpointId rest found target =>
    by_cases same : k = ⟨m.eventId, endpointId, m.attempt⟩
    · subst same
      exact .inr (.inr ⟨w, m, rest, rfl, found, rfl, target, rfl⟩)
    · exact .inl (RedisRetryScheduler.holds_cancel.2 ⟨same, hk⟩)
  | @task i _ t _ _ found moved =>
    obtain ⟨worker, record, c⟩ := t
    cases moved with
    | schedule => exact .inl (RedisRetryScheduler.holds_schedule.2 (.inr hk))
    | @cancel d stage =>
      by_cases same : k = d.member
      · exact .inr (.inl ⟨i, _, d, rfl, found, rfl, stage, same.symm⟩)
      · exact .inl (RedisRetryScheduler.holds_cancel.2 ⟨same, hk⟩)
    | _ => exact .inl hk
  | _ => exact .inl hk

/-- A retry entry comes only from a call that schedules it. -/
theorem Transition.held_cases (h : Transition cfg s a s') {k : Member}
    (hk : s'.store.redis.Holds k) : s.store.redis.Holds k ∨
      ∃ (i retryAfter : Nat) (t : Task Message Call) (d : Delivery) (result : HttpResult),
        a = .task i (.schedule retryAfter) ∧ s.group.tasks[i]? = some t ∧
        t.data = .delivering d ∧ d.stage = .failed result ∧ d.nextMember = k := by
  cases h with
  | schedulerCancel => exact .inl (RedisRetryScheduler.holds_cancel.1 hk).2
  | @task i _ t _ _ found moved =>
    obtain ⟨worker, record, c⟩ := t
    cases moved with
    | schedule stage =>
      rcases RedisRetryScheduler.holds_schedule.1 hk with rfl | hk
      · exact .inr ⟨i, _, _, _, _, rfl, found, rfl, stage, rfl⟩
      · exact .inl hk
    | cancel => exact .inl (RedisRetryScheduler.holds_cancel.1 hk).2
    | _ => exact .inl hk
  | _ => exact .inl hk

/-- A dead letter is written only by the call of a task, for a pair that has none. -/
theorem Transition.dlq_cases (h : Transition cfg s a s') {x : DLQEntry}
    (hx : x ∈ s'.store.db.dlq) : x ∈ s.store.db.dlq ∨
      ∃ (i : Nat) (t : Task Message Call) (d : Delivery) (result : HttpResult),
        a = .task i (.insertDlq x.id) ∧ s.group.tasks[i]? = some t ∧ t.data = .delivering d ∧
        d.stage = .failed result ∧ x.eventId = d.event.id ∧ x.endpointId = d.endpoint.id ∧
        x.id ∉ s.store.db.issued ∧ ¬ s.store.db.HasDlq d.event.id d.endpoint.id ∧
        s.store.eventLocked d.event.id = false := by
  cases h with
  | createEndpoint _ tables | ingest _ _ tables =>
    change x ∈ Tables.dlq _ at hx
    rw [State.setDb, tables] at hx
    exact .inl hx
  | deleteEndpoint | deleteDlq | requestCommit => exact .inl (List.mem_filter.1 hx).1
  | @task i _ t _ _ found moved =>
    obtain ⟨worker, record, c⟩ := t
    cases moved with
    | record _ _ _ _ tables =>
      change x ∈ Tables.dlq _ at hx
      rw [Store.log, tables] at hx
      exact .inl hx
    | @insertDlq d result id db stage _ free unlocked _ fresh tables =>
      rw [tables] at hx
      rcases List.mem_append.1 hx with hx | hx
      · exact .inl hx
      · rw [List.mem_singleton] at hx
        subst hx
        exact .inr ⟨i, _, d, result, rfl, found, rfl, stage, rfl, rfl, fresh, free, unlocked⟩
    | _ => exact .inl hx
  | _ => exact .inl hx

/-- A dead letter goes only with its endpoint, by its own deletion, or by the commit of a request
that deletes it. -/
theorem Transition.dlq_kept (h : Transition cfg s a s') {x : DLQEntry}
    (hx : x ∈ s.store.db.dlq) : x ∈ s'.store.db.dlq ∨ a = .deleteEndpoint x.endpointId ∨
      (a = .deleteDlq x.id ∧ s.store.dlqLocked x.id = false) ∨
      ∃ (i : Nat) (q : Request) (r : Record Message) (rows : List UUID), a = .request i .commit ∧
        s.store.requests[i]? = some q ∧ q.stage = .deleted r rows ∧ x.id ∈ rows := by
  cases h with
  | createEndpoint _ tables | ingest _ _ tables => left; rw [State.setDb, tables]; exact hx
  | @deleteEndpoint id =>
    by_cases same : x.endpointId = id
    · exact .inr (.inl (by rw [same]))
    · exact .inl (List.mem_filter.2 ⟨hx, decide_eq_true same⟩)
  | @deleteDlq id _ _ _ free =>
    by_cases same : x.id = id
    · subst same; exact .inr (.inr (.inl ⟨rfl, free⟩))
    · exact .inl (List.mem_filter.2 ⟨hx, by simpa using same⟩)
  | @requestCommit i q r rows found stage =>
    by_cases same : x.id ∈ rows
    · exact .inr (.inr (.inr ⟨i, q, r, rows, rfl, found, stage, same⟩))
    · exact .inl (List.mem_filter.2 ⟨hx, decide_eq_true same⟩)
  | @task _ _ t _ _ _ moved =>
    left
    obtain ⟨worker, record, c⟩ := t
    cases moved with
    | record _ _ _ _ tables => rw [Store.log, tables]; exact hx
    | insertDlq _ _ _ _ _ _ tables => rw [tables]; exact List.mem_append_left _ hx
    | _ => exact hx
  | _ => exact .inl hx

/-- A request keeps its place, its kind and its event, and its stage changes by its own steps. -/
theorem Transition.request_at (h : Transition cfg s a s') {i : Nat} {q : Request}
    (hq : s.store.requests[i]? = some q) : ∃ stage,
      s'.store.requests[i]? = some { q with stage } ∧
        ((stage = q.stage ∧ ∀ b, a ≠ .request i b) ∨
          ∃ b, a = .request i b ∧ q.Moves s.store.db.toTables b stage) := by
  have old : s'.store.requests[i]? = some q → (∀ b, a ≠ .request i b) → ∃ stage,
      s'.store.requests[i]? = some { q with stage } ∧
        ((stage = q.stage ∧ ∀ b, a ≠ .request i b) ∨
          ∃ b, a = .request i b ∧ q.Moves s.store.db.toTables b stage) :=
    fun he other => ⟨q.stage, he, .inl ⟨rfl, other⟩⟩
  have append : ∀ {new : Request}, (s.store.requests ++ [new])[i]? = some q := fun {new} => by
    rw [List.getElem?_append_left (List.getElem?_eq_some_iff.1 hq).1, hq]
  have set : ∀ {j : Nat} {q₀ : Request} {b : RequestAction} {stage : RequestStage},
      s.store.requests[j]? = some q₀ → q₀.Moves s.store.db.toTables b stage → a = .request j b →
      ∃ stage', (s.store.requests.set j { q₀ with stage })[i]? = some { q with stage := stage' } ∧
        ((stage' = q.stage ∧ ∀ b, a ≠ .request i b) ∨
          ∃ b, a = .request i b ∧ q.Moves s.store.db.toTables b stage') := by
    intro j q₀ b stage found moved ha
    by_cases hj : j = i
    · subst hj
      cases found.symm.trans hq
      refine ⟨stage, ?_, .inr ⟨b, ha, moved⟩⟩
      rw [List.getElem?_set_self (List.getElem?_eq_some_iff.1 hq).1]
    · refine ⟨q.stage, by rw [List.getElem?_set_ne hj, hq], .inl ⟨rfl, fun b he => hj ?_⟩⟩
      rw [ha] at he
      cases he
      rfl
  cases h with
  | retryEvent | replayDlq => exact old append fun _ => by simp
  | requestPublish found stage => exact set found (.publish _ _ stage) rfl
  | requestDelete found stage => exact set found (.delete stage) rfl
  | requestCommit found stage => exact set found (.commit stage) rfl
  | requestAbort found opened => exact set found (.abort opened) rfl
  | task _ moved => exact old (moved.requests_eq ▸ hq) fun _ => by simp
  | _ => exact old hq fun _ => by simp

/-- A request is an old one that may have moved on, or has just taken its row lock. -/
theorem Transition.request_cases (h : Transition cfg s a s') {q' : Request}
    (hq : q' ∈ s'.store.requests) :
    (∃ (i : Nat) (q : Request) (stage : RequestStage), s.store.requests[i]? = some q ∧
      q' = { q with stage } ∧
      (stage = q.stage ∨ ∃ b, a = .request i b ∧ q.Moves s.store.db.toTables b stage)) ∨
    (∃ id ∈ s.store.db.eventIds, a = .retryEvent id ∧ q' = ⟨.retry, id, .locked⟩ ∧
      s.store.eventLocked id = false) ∨
    ∃ d ∈ s.store.db.dlq, a = .replayDlq d.id ∧ q' = ⟨.replay d.id, d.eventId, .locked⟩ ∧
      s.store.dlqLocked d.id = false := by
  have old : q' ∈ s.store.requests → ∃ (i : Nat) (q : Request) (stage : RequestStage),
      s.store.requests[i]? = some q ∧ q' = { q with stage } ∧
      (stage = q.stage ∨ ∃ b, a = .request i b ∧ q.Moves s.store.db.toTables b stage) := by
    intro hq
    obtain ⟨i, hi⟩ := List.mem_iff_getElem?.1 hq
    exact ⟨i, q', q'.stage, hi, rfl, .inl rfl⟩
  have set : ∀ {j : Nat} {q : Request} {b : RequestAction} {stage : RequestStage},
      s.store.requests[j]? = some q → q.Moves s.store.db.toTables b stage → a = .request j b →
      q' ∈ s.store.requests.set j { q with stage } →
      ∃ (i : Nat) (q : Request) (stage : RequestStage), s.store.requests[i]? = some q ∧
        q' = { q with stage } ∧
        (stage = q.stage ∨ ∃ b, a = .request i b ∧ q.Moves s.store.db.toTables b stage) := by
    intro j q b stage found moved ha hq
    rcases List.mem_or_eq_of_mem_set hq with hq | hq
    · exact old hq
    · exact ⟨j, q, stage, found, hq, .inr ⟨b, ha, moved⟩⟩
  cases h with
  | retryEvent found free =>
    rcases List.mem_append.1 hq with hq | hq
    · exact .inl (old hq)
    · exact .inr (.inl ⟨_, found, rfl, List.mem_singleton.1 hq, free⟩)
  | replayDlq found same free =>
    rcases List.mem_append.1 hq with hq | hq
    · exact .inl (old hq)
    · subst same; exact .inr (.inr ⟨_, found, rfl, List.mem_singleton.1 hq, free⟩)
  | requestPublish found stage => exact .inl (set found (.publish _ _ stage) rfl hq)
  | requestDelete found stage => exact .inl (set found (.delete stage) rfl hq)
  | requestCommit found stage => exact .inl (set found (.commit stage) rfl hq)
  | requestAbort found opened => exact .inl (set found (.abort opened) rfl hq)
  | task _ moved => exact .inl (old (moved.requests_eq ▸ hq))
  | _ => exact .inl (old hq)

/-- A relay is as it was, holds no rows, has just selected them, or has just published the first. -/
theorem Transition.relay_cases (h : Transition cfg s a s') {relay : Relay}
    (hr : relay ∈ s'.relays) : relay ∈ s.relays ∨ relay = .idle ∨ relay = .batch s.selectable [] ∨
      ∃ p o entry todo done, .batch (entry :: todo) done ∈ s.relays ∧
        relay = .batch todo (done ++ [entry]) ∧
        s.group.append ⟨p, o, .fanOut entry.eventId⟩ = some s'.group := by
  cases h with
  | relaySelect =>
    exact (List.mem_or_eq_of_mem_set hr).imp_right fun same => .inr (.inl same)
  | relayCommit | crash => exact (List.mem_or_eq_of_mem_set hr).imp_right .inl
  | @relayPublish w p o entry todo done _ found appended =>
    refine (List.mem_or_eq_of_mem_set hr).imp_right fun same => .inr (.inr ?_)
    exact ⟨p, o, entry, todo, done, List.mem_of_getElem? found, same, appended⟩
  | spawn => exact (List.mem_append.1 hr).imp_right fun new => .inl (List.mem_singleton.1 new)
  | _ => exact .inl hr

/-- An outbox row goes only when a relay that published it commits. -/
theorem Transition.outbox_kept (h : Transition cfg s a s') {o : OutboxEntry}
    (ho : o ∈ s.store.db.outbox) : o ∈ s'.store.db.outbox ∨
      ∃ w done, a = .relay w .commit ∧ s.relays[w]? = some (.batch [] done) ∧
        ∃ o' ∈ done, o'.id = o.id := by
  cases h with
  | createEndpoint _ tables =>
    left
    rw [State.setDb, tables]
    exact ho
  | ingest _ _ tables =>
    left
    rw [State.setDb, tables]
    exact List.mem_append_left _ ho
  | @relayCommit w done found =>
    by_cases hd : o.id ∈ done.map (·.id)
    · exact .inr ⟨w, done, rfl, found, List.mem_map.1 hd⟩
    · exact .inl (List.mem_filter.2 ⟨ho, by simpa using hd⟩)
  | task _ moved => exact .inl (moved.outbox_eq ▸ ho)
  | _ => exact .inl ho

end Transition
end HookRelay
