import HookRelay.DerivedStatus
import HookRelay.Evolution

/-!
# The stored status and the derived one

`events.status` starts as `pending`, and the only statements that write the column, those of
`retry_event` and `replay_dlq_entry`, write `pending` again: `get_event` assigns the derived status
to a row it never commits. So the two agree exactly on the events no delivery has left a row of.
-/

namespace HookRelay

/-- `select(Event).where(Event.idempotency_key == key)`: the event `ingest_event` returns for a key
that is taken. -/
def Tables.eventOfKey (t : Tables) (key : String) : Option Event :=
  t.events.find? (·.idempotencyKey = key)

/-- Nothing that concerns the event is left to do. -/
structure State.WorkDone (s : State) (e : UUID) : Prop where
  outbox : ∀ o ∈ s.store.db.outbox, o.eventId ≠ e
  records : ∀ r ∈ s.group.log, r.value.eventId = e → r.offset < s.group.committed r.partition
  tasks : ∀ t ∈ s.group.tasks, t.record.value.eventId ≠ e
  retries : ∀ k, s.store.redis.Holds k → k.eventId ≠ e

/-- A delivery of the event has left an attempt row or a dead letter. -/
def Tables.Touched (t : Tables) (e : UUID) : Prop := ∃ p, t.Tried e p ∨ t.HasDlq e p

/-! ## The derived status -/

section Derived

variable {t : Tables} {e : UUID}

theorem Tables.endpointStates_eq_nil : t.endpointStates e = [] ↔ ¬ t.Touched e := by
  rw [List.eq_nil_iff_forall_not_mem]
  constructor
  · rintro empty ⟨p, known⟩
    exact empty ⟨p, t.hasSuccess e p, some (decide (t.HasDlq e p))⟩
      (mem_endpointStates.2 ⟨known, rfl, rfl⟩)
  · intro untouched x hx
    exact untouched ⟨x.endpointId, (mem_endpointStates.1 hx).1⟩

/-- Every endpoint the query sees is counted as succeeded, exhausted or retrying. -/
theorem Tables.counted_of_mem {x : EndpointState} (hx : x ∈ t.endpointStates e) :
    x.succeeded = some true ∨ x.exhausted = some true ∨ x.retrying = some true := by
  obtain ⟨-, -, hd⟩ := mem_endpointStates.1 hx
  simp only [EndpointState.succeeded, EndpointState.exhausted, EndpointState.retrying, hd,
    Sql.Truth.not_some, Sql.Truth.and_some, Option.some.injEq]
  cases x.hasSuccess <;> cases decide (t.HasDlq e x.endpointId) <;> simp

/-- The derived status is `pending` as long as no delivery has left a row. -/
theorem Tables.derivedStatus_eq_pending : t.derivedStatus e = .pending ↔ ¬ t.Touched e := by
  rw [← endpointStates_eq_nil]
  constructor
  · intro pending
    rw [List.eq_nil_iff_forall_not_mem]
    intro x hx
    have some_counted : 0 < Sql.countWhen EndpointState.succeeded (t.endpointStates e) +
        Sql.countWhen EndpointState.exhausted (t.endpointStates e) +
        Sql.countWhen EndpointState.retrying (t.endpointStates e) := by
      obtain succeeded | exhausted | retrying := counted_of_mem hx
      · have := Sql.countWhen_pos.2 ⟨x, hx, succeeded⟩
        omega
      · have := Sql.countWhen_pos.2 ⟨x, hx, exhausted⟩
        omega
      · have := Sql.countWhen_pos.2 ⟨x, hx, retrying⟩
        omega
    unfold derivedStatus at pending
    simp only [Nat.ne_of_gt some_counted, if_false] at pending
    split at pending
    · cases pending
    · split at pending
      · cases pending
      · split at pending
        · cases pending
        · split at pending <;> cases pending
  · intro empty
    simp [derivedStatus, empty, Sql.countWhen]

end Derived

/-! ## The stored status -/

section Stored

variable {cfg : Settings} {s s' : State} {a : Action}

theorem stored_pending_step (hs : Transition cfg s a s')
    (h : ∀ event ∈ s.store.db.events, event.status = .pending) :
    ∀ event ∈ s'.store.db.events, event.status = .pending := by
  intro event he
  cases hs with
  | createEndpoint _ tables =>
    change event ∈ Tables.events _ at he
    rw [State.setDb, tables] at he
    exact h event he
  | ingest _ _ tables =>
    change event ∈ Tables.events _ at he
    rw [State.setDb, tables] at he
    rcases List.mem_append.1 he with he | he
    · exact h event he
    · rw [List.mem_singleton.1 he]
      rfl
  | requestCommit =>
    obtain ⟨event', he', rfl⟩ := List.mem_map.1 he
    split
    · rfl
    · exact h event' he'
  | @task _ _ t _ _ _ moved =>
    obtain ⟨worker, record, c⟩ := t
    cases moved with
    | record _ _ _ _ tables =>
      change event ∈ Tables.events _ at he
      rw [Store.log, tables] at he
      exact h event he
    | insertDlq _ _ _ _ _ _ tables =>
      rw [tables] at he
      exact h event he
    | _ => exact h event he
  | _ => exact h event he

/-- Nothing ever stores another status than `pending`. -/
theorem stored_pending (reach : Reachable cfg s) :
    ∀ event ∈ s.store.db.events, event.status = .pending :=
  reach.invariant (I := fun s => ∀ event ∈ s.store.db.events, event.status = .pending)
    (fun _ _ _ h _ hs => stored_pending_step (step_transition hs) h) fun event he => by cases he

/-- **When the stored status is the derived one.** In every reachable state the status that
`POST /events` returns for a key that is taken equals the one `GET /events/{id}` derives for the
event, if and only if the event has neither an attempt row nor a dead letter. -/
theorem stored_status_agrees_iff (reach : Reachable cfg s) {key : String} {stored derived : Event}
    (repeated : s.store.db.eventOfKey key = some stored)
    (fetched : s.getEvent stored.id = some derived) :
    stored.status = derived.status ↔ ¬ s.store.db.Touched stored.id := by
  obtain ⟨event, -, same⟩ := Option.bind_eq_some_iff.1 fetched
  cases same
  rw [stored_pending reach stored (List.mem_of_find?_eq_some repeated), eq_comm]
  exact Tables.derivedStatus_eq_pending

end Stored

/-- An event is delivered, its record is committed, and a second `POST /events` with its key still
reports `pending`. -/
theorem stored_status_not_derived :
    ¬ ∀ (cfg : Settings) (s : State) (key : String) (stored derived : Event), Reachable cfg s →
      s.store.db.eventOfKey key = some stored → s.WorkDone stored.id →
      s.getEvent stored.id = some derived → stored.status = derived.status := by
  intro claim
  obtain ⟨s, run, h⟩ := Lts.Run.of_check_any (C := fun _ _ => true) (s := initial)
    (p := fun s : State => (s.store.db.eventOfKey "order-1").any fun stored : Event =>
      (s.getEvent stored.id).any (fun derived : Event =>
        decide (stored.status = EventStatus.pending) &&
          decide (derived.status = EventStatus.delivered)) &&
      s.store.db.outbox.isEmpty && s.group.tasks.isEmpty && s.store.redis.data.keys.isEmpty &&
      s.group.log.all fun r => decide (r.offset < s.group.committed r.partition))
    (show (Lts.check (State.step {}) _ _ (samplePublished ++
      handOut 0 [sampleRecord 0 (.fanOut (.ofNat 2))] ++ [.task 0 .resolve] ++ attempt 0 200 ++
      [.finish 0 .returned, .loop (.commitApply 0)])).any _ = true by decide +kernel)
  simp only [Option.any_eq_true, Bool.and_eq_true, decide_eq_true_eq, List.isEmpty_iff,
    List.all_eq_true] at h
  obtain ⟨stored, repeated, ⟨⟨⟨⟨derived, fetched, pending, delivered⟩, outbox⟩, tasks⟩, retries⟩,
    committed⟩ := h
  have done : s.WorkDone stored.id := by
    refine ⟨fun o ho => ?_, fun r hr _ => committed r hr, fun t ht => ?_, fun k held => ?_⟩
    · rw [outbox] at ho
      cases ho
    · rw [tasks] at ht
      cases ht
    · rw [RedisRetryScheduler.Holds, AList.mem_keys, retries] at held
      cases held
  have agree := claim {} s "order-1" stored derived ⟨_, run.any⟩ repeated done fetched
  rw [pending, delivered] at agree
  cases agree

/-- Before its first delivery the event is `pending` in both views. -/
theorem stored_status_agrees_first :
    ∃ (s : State) (stored derived : Event), s.store.db.eventOfKey "order-1" = some stored ∧
      s.getEvent stored.id = some derived ∧ stored.status = derived.status := by
  obtain ⟨s, run, h⟩ := Lts.Run.of_check_any (C := fun _ _ => true) (s := initial)
    (p := fun s : State => (s.store.db.eventOfKey "order-1").any fun stored : Event =>
      (s.getEvent stored.id).isSome && s.store.db.attempts.isEmpty && s.store.db.dlq.isEmpty)
    (show (Lts.check (State.step {}) _ _ samplePublished).any _ = true by decide +kernel)
  simp only [Option.any_eq_true, Bool.and_eq_true, Option.isSome_iff_exists, List.isEmpty_iff] at h
  obtain ⟨stored, repeated, ⟨⟨derived, fetched⟩, attempts⟩, dlq⟩ := h
  refine ⟨s, stored, derived, repeated, fetched,
    (stored_status_agrees_iff ⟨_, run.any⟩ repeated fetched).2 ?_⟩
  rintro ⟨p, ⟨row, hr, -⟩ | ⟨d, hd, -⟩⟩
  · rw [attempts] at hr
    cases hr
  · rw [dlq] at hd
    cases hd

end HookRelay
