import HookRelay.Delivery
import HookRelay.Lib.Lts

/-!
# `_process_record` from start to end

The call as one function, when nobody else writes: `none` is an exception that leaves it. An endpoint may
answer with any text, and the insert of the attempt row raises where the column does not take it. What the
function does is a run of the steps of `Delivery.lean`.
-/

namespace HookRelay

/-- What one delivery gets from outside: the reply to its POST, the identifier of a new dead letter, and
the due time of a retry. -/
structure Reaction where
  reply : HttpResult
  dlqId : UUID
  retryAfter : Nat

/-! ## The functions -/

section

variable (cfg : Settings) (st : Store) (r : Record Message)

/-- `move_to_dlq`. -/
def moveToDlq (d : Delivery) (result : HttpResult) (dlqId : UUID) : Option Store := do
  let db ← st.db.insertDlq ⟨dlqId, d.event.id, d.endpoint.id, Delivery.reason cfg result⟩
  let redis := st.redis.cancel d.member
  some { st with db, redis, dlqTopic := st.dlqTopic ++ [(d.event.id, d.endpoint.id)] }

/-- The insert of the attempt row. -/
def insertAttempt (row : DeliveryAttempt) : Option Store := do
  let db ← st.db.insertAttempt row
  let st' := { st with db }
  some (if st.db.conflictsAttempt row then st' else st'.log (.recorded r row))

/-- The failure path. -/
def retryOrBury (reaction : Reaction) (d : Delivery) (result : HttpResult) : Option Store :=
  if d.exhausted cfg result then moveToDlq cfg st d result reaction.dlqId
  else
    let redis := st.redis.schedule d.nextMember d.nextMessage reaction.retryAfter
    some ({ st with redis }.log (.scheduled d.nextMember))

/-- `_deliver_to_endpoint`. -/
def deliverToEndpoint (reaction : Reaction) (d : Delivery) : Option Store :=
  if st.db.hasSuccess d.event.id d.endpoint.id then some st
  else do
    let result := reaction.reply
    let st ← insertAttempt (st.log (.posted r (d.post result))) r (d.row result)
    if result.succeeded then some st else retryOrBury cfg st reaction d result

/-- The loop over the targets. -/
def deliverAll (env : Store → UUID → Reaction) (event : Event) (attemptNumber : Nat) :
    Store → List Endpoint → Option Store
  | st, [] => some st
  | st, endpoint :: rest => do
    let st ← deliverToEndpoint cfg st r (env st endpoint.id)
      { event, attemptNumber, endpoint, stage := .checking, rest }
    deliverAll env event attemptNumber st rest

/-- `_process_record`. -/
def processRecord (env : Store → UUID → Reaction) : Option Store :=
  match st.db.getEvent r.value.eventId with
  | none => some st
  | some event => deliverAll cfg r env event r.value.attempt st (targets st.db.toTables event r.value)

end

/-! ## The functions are runs of the steps -/

section

variable {cfg : Settings} {st st' : Store} {r : Record Message} {reaction : Reaction} {d : Delivery}
  {result : HttpResult}

/-- The next steps of a call alone. -/
def Call.next (cfg : Settings) (r : Record Message) (s : Store × Call) (a : TaskAction) :
    Option (Store × Call) :=
  s.2.step cfg s.1 r a

/-- The call comes from one state to the other. -/
def Comes (cfg : Settings) (r : Record Message) (s s' : Store × Call) : Prop :=
  ∃ as, Lts.Run (Call.next cfg r) Lts.Any s as s'

theorem Comes.refl (s : Store × Call) : Comes cfg r s s := ⟨[], .nil s⟩

theorem Comes.step {s s' s'' : Store × Call} {a : TaskAction} (h : s.2.step cfg s.1 r a = some s')
    (rest : Comes cfg r s' s'') : Comes cfg r s s'' := by
  obtain ⟨as, run⟩ := rest
  exact ⟨a :: as, .cons trivial h run⟩

theorem Comes.trans {s s' s'' : Store × Call} (h : Comes cfg r s s') (h' : Comes cfg r s' s'') :
    Comes cfg r s s'' := by
  obtain ⟨as, run⟩ := h
  obtain ⟨bs, run'⟩ := h'
  exact ⟨as ++ bs, run.append run'⟩

theorem insertAttempt_requests {row : DeliveryAttempt} (h : insertAttempt st r row = some st') :
    st'.requests = st.requests := by
  obtain ⟨db, -, h⟩ := Option.bind_eq_some_iff.1 h
  obtain rfl := Option.some.inj h
  split <;> rfl

theorem eventLocked_idle (idle : st.requests = []) (eventId : UUID) : st.eventLocked eventId = false := by
  rw [Store.eventLocked, idle, List.any_nil]

theorem record_step (idle : st.requests = []) (stage : d.stage = .recording result)
    (h : insertAttempt st r (d.row result) = some st') :
    d.record st r = some (st', if result.succeeded then d.next else d.goto (.failed result)) := by
  obtain ⟨db, inserted, h⟩ := Option.bind_eq_some_iff.1 h
  obtain rfl := Option.some.inj h
  simp only [Delivery.record, stage, eventLocked_idle idle, Bool.and_false, Bool.false_eq_true, if_false, inserted,
    Option.bind_eq_bind, Option.bind_some]

theorem moveToDlq_comes (idle : st.requests = []) (stage : d.stage = .failed result)
    (exhausted : d.exhausted cfg result = true) (h : moveToDlq cfg st d result reaction.dlqId = some st') :
    Comes cfg r (st, .delivering d) (st', d.next) := by
  obtain ⟨db, inserted, h⟩ := Option.bind_eq_some_iff.1 h
  obtain rfl := Option.some.inj h
  have settled : ∀ id, st.dlqDeleting id = false := fun id => by rw [Store.dlqDeleting, idle, List.any_nil]
  have insert : d.insertDlq cfg st reaction.dlqId = some ({ st with db }, d.goto .cancelling) := by
    simp [Delivery.insertDlq, stage, exhausted, eventLocked_idle idle, settled, inserted]
  have cancel : ({ d with stage := .cancelling } : Delivery).cancel { st with db } true =
      some ({ st with db, redis := st.redis.cancel d.member }, d.goto .notifying) := if_pos rfl
  let st₁ := { st with db, redis := st.redis.cancel d.member }
  have notify : ({ d with stage := .notifying } : Delivery).notify st₁ true =
      some ({ st₁ with dlqTopic := st.dlqTopic ++ [(d.event.id, d.endpoint.id)] }, d.next) := if_pos rfl
  refine .step (a := .insertDlq reaction.dlqId) insert ?_
  refine .step (a := .cancel true) cancel ?_
  exact .step (a := .notify true) notify (.refl _)

theorem retryOrBury_requests (h : retryOrBury cfg st reaction d result = some st') :
    st'.requests = st.requests := by
  unfold retryOrBury at h
  split at h
  · obtain ⟨db, -, h⟩ := Option.bind_eq_some_iff.1 h
    obtain rfl := Option.some.inj h
    rfl
  · obtain rfl := Option.some.inj h
    rfl

theorem retryOrBury_comes (idle : st.requests = []) (stage : d.stage = .failed result)
    (h : retryOrBury cfg st reaction d result = some st') :
    Comes cfg r (st, .delivering d) (st', d.next) := by
  unfold retryOrBury at h
  split at h
  · rename_i exhausted
    exact moveToDlq_comes idle stage exhausted h
  · rename_i again
    obtain rfl := Option.some.inj h
    refine .step (a := .schedule reaction.retryAfter) ?_ (.refl _)
    simp only [Call.step, Delivery.schedule, stage, again, Bool.false_eq_true, if_false]

/-- A delivery is a run of the call's steps. -/
theorem deliverToEndpoint_comes (idle : st.requests = []) (stage : d.stage = .checking)
    (h : deliverToEndpoint cfg st r reaction d = some st') :
    st'.requests = [] ∧ Comes cfg r (st, .delivering d) (st', d.next) := by
  unfold deliverToEndpoint at h
  split at h
  · rename_i prior
    obtain rfl := Option.some.inj h
    refine ⟨idle, .step (a := .select) ?_ (.refl _)⟩
    simp only [Call.step, Delivery.select, stage, prior, if_true]
  · rename_i new
    let result := reaction.reply
    obtain ⟨st₁, inserted, h⟩ := Option.bind_eq_some_iff.1 h
    have idle₁ : st₁.requests = [] := (insertAttempt_requests inserted).trans idle
    have select : d.select st = some (st, d.goto .posting) := by
      simp only [Delivery.select, stage, new, if_true, Bool.false_eq_true, if_false]
    have post : ({ d with stage := .posting } : Delivery).request st r result =
        some (st.log (.posted r (d.post result)), d.goto (.recording result)) := if_pos rfl
    have record : ({ d with stage := .recording result } : Delivery).record
        (st.log (.posted r (d.post result))) r = some (st₁,
          if result.succeeded then d.next else d.goto (.failed result)) := record_step idle rfl inserted
    have started : Comes cfg r (st, .delivering d)
        (st₁, if result.succeeded then d.next else d.goto (.failed result)) := by
      refine .step (a := .select) select ?_
      refine .step (a := .post result) post ?_
      exact .step (a := .record) record (.refl _)
    split at h
    · rename_i done
      obtain rfl := Option.some.inj h
      rw [if_pos done] at started
      exact ⟨idle₁, started⟩
    · rename_i failed
      rw [if_neg failed] at started
      have idle' : st'.requests = [] := (retryOrBury_requests h).trans idle₁
      exact ⟨idle', started.trans (retryOrBury_comes (d := { d with stage := .failed result }) idle₁ rfl h)⟩

/-- `_process_record` is a run of the call's steps, from its start to its end. -/
theorem processRecord_comes {env : Store → UUID → Reaction} (idle : st.requests = [])
    (h : processRecord cfg st r env = some st') : Comes cfg r (st, .resolving) (st', .finished) := by
  have loop : ∀ event n (ps : List Endpoint) st, st.requests = [] → deliverAll cfg r env event n st ps = some st' →
      Comes cfg r (st, deliverNext event n ps) (st', .finished) := by
    intro event n ps
    induction ps with
    | nil =>
      intro st idle h
      obtain rfl := Option.some.inj h
      exact .refl _
    | cons p ps ih =>
      intro st idle h
      obtain ⟨st₁, first, h⟩ := Option.bind_eq_some_iff.1 h
      obtain ⟨idle₁, started⟩ := deliverToEndpoint_comes idle rfl first
      exact started.trans (ih st₁ idle₁ h)
  refine .step (a := .resolve) rfl ?_
  unfold processRecord at h
  unfold resolveTargets
  cases found : st.db.getEvent r.value.eventId with
  | none =>
    rw [found] at h
    obtain rfl := Option.some.inj h
    exact .refl _
  | some event =>
    rw [found] at h
    exact loop _ _ _ st idle h

/-! ## What a delivery does -/

/-- From one state to the other rows and dead letters are added, and retries are cancelled only under the
number `n`. -/
structure Spares (n : Nat) (st st' : Store) : Prop where
  endpoints : st'.db.endpoints = st.db.endpoints
  events : st'.db.events = st.db.events
  attempts : st.db.attempts ⊆ st'.db.attempts
  dlq : st.db.dlq ⊆ st'.db.dlq
  held : ∀ k, k.attemptNumber ≠ n → st.redis.Holds k → st'.redis.Holds k

namespace Spares

variable {n : Nat} {st₁ st₂ st₃ : Store} {e p : UUID}

theorem refl (st : Store) : Spares n st st := ⟨rfl, rfl, fun _ h => h, fun _ h => h, fun _ _ h => h⟩

theorem trans (h : Spares n st₁ st₂) (h' : Spares n st₂ st₃) : Spares n st₁ st₃ where
  endpoints := h'.endpoints.trans h.endpoints
  events := h'.events.trans h.events
  attempts := fun _ mem => h'.attempts (h.attempts mem)
  dlq := fun _ mem => h'.dlq (h.dlq mem)
  held k other held := h'.held k other (h.held k other held)

theorem hasRow (h : Spares n st₁ st₂) {m : Nat} (row : st₁.db.HasRow e p m) : st₂.db.HasRow e p m := by
  obtain ⟨a, mem, columns⟩ := row
  exact ⟨a, h.attempts mem, columns⟩

theorem hasDlq (h : Spares n st₁ st₂) (dead : st₁.db.HasDlq e p) : st₂.db.HasDlq e p := by
  obtain ⟨entry, mem, columns⟩ := dead
  exact ⟨entry, h.dlq mem, columns⟩

end Spares

variable {row : DeliveryAttempt}

/-- The row's text can be stored. The row is there, and was before or is new. -/
theorem insertAttempt_cases (h : insertAttempt st r row = some st') : row.storable = true ∧
    ((st.db.HasRow row.eventId row.endpointId row.attemptNumber ∧ st' = st) ∨
      (¬ st.db.HasRow row.eventId row.endpointId row.attemptNumber ∧
        ∃ db, db.toTables = { st.db.toTables with attempts := st.db.attempts ++ [row] } ∧
          st' = { st with db, history := .recorded r row :: st.history })) := by
  obtain ⟨db, inserted, h⟩ := Option.bind_eq_some_iff.1 h
  dsimp only at h
  rw [Database.insertAttempt, Database.exec_eq_some] at inserted
  obtain ⟨stored, ⟨taken, same⟩ | ⟨free, -, -, tables⟩⟩ := Tables.insertAttempt_cases inserted
  · obtain rfl := Database.ext_tables same
    rw [if_pos (Tables.conflictsAttempt_iff.2 taken)] at h
    exact ⟨stored, .inl ⟨taken, (Option.some.inj h).symm⟩⟩
  · rw [if_neg (mt Tables.conflictsAttempt_iff.1 free)] at h
    exact ⟨stored, .inr ⟨free, db, tables, (Option.some.inj h).symm⟩⟩

/-- The dead letter is there, and was before or is new. -/
theorem moveToDlq_cases {dlqId : UUID} (h : moveToDlq cfg st d result dlqId = some st') :
    ∃ db,
      st' = { st with
        db
        redis := st.redis.cancel d.member
        dlqTopic := st.dlqTopic ++ [(d.event.id, d.endpoint.id)] } ∧
      ((st.db.HasDlq d.event.id d.endpoint.id ∧ db = st.db) ∨
        (¬ st.db.HasDlq d.event.id d.endpoint.id ∧ db.toTables = { st.db.toTables with
          dlq := st.db.dlq ++ [⟨dlqId, d.event.id, d.endpoint.id, Delivery.reason cfg result⟩]
          issued := dlqId :: st.db.issued })) := by
  obtain ⟨db, inserted, h⟩ := Option.bind_eq_some_iff.1 h
  rw [Database.insertDlq, Database.exec_eq_some] at inserted
  refine ⟨db, (Option.some.inj h).symm, ?_⟩
  obtain ⟨taken, same⟩ | ⟨free, -, -, -, tables⟩ := Tables.insertDlq_cases inserted
  · exact .inl ⟨taken, Database.ext_tables same⟩
  · exact .inr ⟨free, tables⟩

theorem insertAttempt_spares {n : Nat} (h : insertAttempt st r row = some st') :
    Spares n st st' ∧ st'.db.issued = st.db.issued ∧
      st'.db.HasRow row.eventId row.endpointId row.attemptNumber ∧
      ∀ a ∈ st'.db.attempts, a ∈ st.db.attempts ∨ a = row := by
  obtain ⟨-, ⟨taken, rfl⟩ | ⟨-, db, tables, rfl⟩⟩ := insertAttempt_cases h
  · exact ⟨.refl _, rfl, taken, fun a mem => .inl mem⟩
  · refine ⟨⟨?_, ?_, ?_, ?_, fun _ _ held => held⟩, ?_, ?_, ?_⟩
    all_goals dsimp only
    all_goals rw [tables]
    · exact fun a mem => List.mem_append_left _ mem
    · exact fun a mem => mem
    · exact ⟨row, List.mem_append_right _ List.mem_cons_self, rfl, rfl, rfl⟩
    · intro a mem
      obtain old | new := List.mem_append.1 mem
      · exact .inl old
      · exact .inr (List.mem_singleton.1 new)

/-- The failure path leaves a retry of the next attempt or a dead letter. -/
theorem retryOrBury_spares (h : retryOrBury cfg st reaction d result = some st') :
    Spares d.attemptNumber st st' ∧ st'.db.attempts = st.db.attempts ∧
      (∀ id ∈ st'.db.issued, id ∈ st.db.issued ∨ id = reaction.dlqId) ∧
      (st'.redis.Holds d.nextMember ∨ st'.db.HasDlq d.event.id d.endpoint.id) := by
  unfold retryOrBury at h
  split at h
  · have spared : ∀ k : Member, k.attemptNumber ≠ d.attemptNumber → st.redis.Holds k →
        (st.redis.cancel d.member).Holds k := fun k other held =>
      RedisRetryScheduler.holds_cancel.2 ⟨fun same => other (congrArg Member.attemptNumber same), held⟩
    obtain ⟨db, rfl, ⟨taken, rfl⟩ | ⟨-, tables⟩⟩ := moveToDlq_cases h
    · exact ⟨⟨rfl, rfl, fun _ mem => mem, fun _ mem => mem, spared⟩, rfl, fun id mem => .inl mem, .inr taken⟩
    · refine ⟨⟨?_, ?_, ?_, ?_, spared⟩, ?_, ?_, .inr ?_⟩
      all_goals dsimp only
      all_goals rw [tables]
      · exact fun a mem => mem
      · exact fun entry mem => List.mem_append_left _ mem
      · intro id mem
        obtain new | old := List.mem_cons.1 mem
        · exact .inr new
        · exact .inl old
      · exact ⟨_, List.mem_append_right _ List.mem_cons_self, rfl, rfl⟩
  · obtain rfl := Option.some.inj h
    refine ⟨⟨rfl, rfl, fun _ mem => mem, fun _ mem => mem, fun k _ held => ?_⟩, rfl, fun id mem => .inl mem,
      .inl ?_⟩
    · exact RedisRetryScheduler.holds_schedule.2 (.inr held)
    · exact RedisRetryScheduler.holds_schedule.2 (.inl rfl)

/-- What `_deliver_to_endpoint` leaves behind when it returns. -/
structure Delivered (reaction : Reaction) (d : Delivery) (st st' : Store) : Prop where
  spares : Spares d.attemptNumber st st'
  issued : ∀ id ∈ st'.db.issued, id ∈ st.db.issued ∨ id = reaction.dlqId
  attempts : ∀ a ∈ st'.db.attempts,
    a ∈ st.db.attempts ∨ (a.eventId = d.event.id ∧ a.endpointId = d.endpoint.id)
  storable : st.db.hasSuccess d.event.id d.endpoint.id = false → reaction.reply.storable = true
  row : st.db.hasSuccess d.event.id d.endpoint.id = false →
    st'.db.HasRow d.event.id d.endpoint.id d.attemptNumber
  fate : st.db.hasSuccess d.event.id d.endpoint.id = false → reaction.reply.succeeded = true ∨
    st'.redis.Holds d.nextMember ∨ st'.db.HasDlq d.event.id d.endpoint.id

theorem deliverToEndpoint_delivered (h : deliverToEndpoint cfg st r reaction d = some st') :
    Delivered reaction d st st' := by
  unfold deliverToEndpoint at h
  split at h
  · rename_i prior
    obtain rfl := Option.some.inj h
    have none : ∀ {P : Prop}, st.db.hasSuccess d.event.id d.endpoint.id = false → P := fun new => by
      rw [prior] at new
      cases new
    exact ⟨.refl _, fun id mem => .inl mem, fun a mem => .inl mem, none, none, none⟩
  · obtain ⟨st₁, inserted, h⟩ := Option.bind_eq_some_iff.1 h
    obtain ⟨spares, issued, row, attempts⟩ := insertAttempt_spares (n := d.attemptNumber) inserted
    -- the log is no part of what is kept
    have spares : Spares d.attemptNumber st st₁ :=
      ⟨spares.endpoints, spares.events, spares.attempts, spares.dlq, spares.held⟩
    have storable : reaction.reply.storable = true := (insertAttempt_cases inserted).1
    have own : ∀ a ∈ st₁.db.attempts,
        a ∈ st.db.attempts ∨ (a.eventId = d.event.id ∧ a.endpointId = d.endpoint.id) := by
      intro a mem
      obtain old | rfl := attempts a mem
      · exact .inl old
      · exact .inr ⟨rfl, rfl⟩
    split at h
    · rename_i done
      obtain rfl := Option.some.inj h
      exact ⟨spares, fun id mem => .inl (issued ▸ mem), own, fun _ => storable, fun _ => row, fun _ => .inl done⟩
    · obtain ⟨spares', same, issued', fate⟩ := retryOrBury_spares h
      refine ⟨spares.trans spares', fun id mem => ?_, fun a mem => own a (same ▸ mem), fun _ => storable,
        fun _ => spares'.hasRow row, fun _ => .inr fate⟩
      exact (issued' id mem).imp_left fun old => issued ▸ old

theorem insertAttempt_returns (stored : row.storable = true) (event : row.eventId ∈ st.db.eventIds)
    (endpoint : row.endpointId ∈ st.db.endpointIds) : ∃ st', insertAttempt st r row = some st' := by
  have inserts : ∃ t, st.db.toTables.insertAttempt row = some t := by
    cases taken : st.db.conflictsAttempt row with
    | true => exact ⟨_, Tables.insertAttempt_taken stored taken⟩
    | false => exact ⟨_, Tables.insertAttempt_free stored taken event endpoint⟩
  obtain ⟨t, inserts⟩ := inserts
  have exec : st.db.insertAttempt row = some ⟨t, st.db.valid.insertAttempt inserts⟩ :=
    Database.exec_eq_some.2 inserts
  rw [insertAttempt, exec]
  exact ⟨_, rfl⟩

theorem retryOrBury_returns (event : d.event.id ∈ st.db.eventIds) (endpoint : d.endpoint.id ∈ st.db.endpointIds)
    (fresh : reaction.dlqId ∉ st.db.issued) : ∃ st', retryOrBury cfg st reaction d result = some st' := by
  have inserts : ∃ t, st.db.toTables.insertDlq
      ⟨reaction.dlqId, d.event.id, d.endpoint.id, Delivery.reason cfg result⟩ = some t := by
    unfold Tables.insertDlq
    split
    · exact ⟨_, rfl⟩
    · rw [if_pos ⟨fresh, event, endpoint⟩]
      exact ⟨_, rfl⟩
  obtain ⟨t, inserts⟩ := inserts
  have exec : st.db.insertDlq ⟨reaction.dlqId, d.event.id, d.endpoint.id, Delivery.reason cfg result⟩ =
      some ⟨t, st.db.valid.insertDlq inserts⟩ := Database.exec_eq_some.2 inserts
  unfold retryOrBury
  split
  · rw [moveToDlq, exec]
    exact ⟨_, rfl⟩
  · exact ⟨_, rfl⟩

/-- A delivery whose row was inserted. -/
theorem deliverToEndpoint_inserted {st₁ : Store} (new : st.db.hasSuccess d.event.id d.endpoint.id = false)
    (inserted : insertAttempt (st.log (.posted r (d.post reaction.reply))) r (d.row reaction.reply) = some st₁) :
    deliverToEndpoint cfg st r reaction d =
      if reaction.reply.succeeded then some st₁ else retryOrBury cfg st₁ reaction d reaction.reply := by
  unfold deliverToEndpoint
  rw [if_neg (by rw [new]; simp)]
  dsimp only
  rw [inserted, Option.bind_eq_bind, Option.bind_some]

/-- It returns if the event and the endpoint are still there, and the text fits its column. -/
theorem deliverToEndpoint_returns (event : d.event.id ∈ st.db.eventIds)
    (endpoint : d.endpoint.id ∈ st.db.endpointIds) (fresh : reaction.dlqId ∉ st.db.issued)
    (fits : st.db.hasSuccess d.event.id d.endpoint.id = false → reaction.reply.storable = true) :
    ∃ st', deliverToEndpoint cfg st r reaction d = some st' := by
  cases prior : st.db.hasSuccess d.event.id d.endpoint.id with
  | true => exact ⟨st, if_pos prior⟩
  | false =>
    have inserts : ∃ st₁,
        insertAttempt (st.log (.posted r (d.post reaction.reply))) r (d.row reaction.reply) = some st₁ :=
      insertAttempt_returns (fits prior) event endpoint
    obtain ⟨st₁, inserted⟩ := inserts
    rw [deliverToEndpoint_inserted prior inserted]
    split
    · exact ⟨st₁, rfl⟩
    · obtain ⟨spares, issued, -⟩ := insertAttempt_spares (n := 0) inserted
      refine retryOrBury_returns ?_ ?_ ?_
      · rwa [Tables.eventIds, spares.events]
      · rwa [Tables.endpointIds, spares.endpoints]
      · rwa [issued]

/-- A reply of success needs nothing else. -/
theorem deliverToEndpoint_succeeds (event : d.event.id ∈ st.db.eventIds)
    (endpoint : d.endpoint.id ∈ st.db.endpointIds) (fits : reaction.reply.storable = true)
    (success : reaction.reply.succeeded = true) : ∃ st', deliverToEndpoint cfg st r reaction d = some st' := by
  cases prior : st.db.hasSuccess d.event.id d.endpoint.id with
  | true => exact ⟨st, if_pos prior⟩
  | false =>
    have inserts : ∃ st₁,
        insertAttempt (st.log (.posted r (d.post reaction.reply))) r (d.row reaction.reply) = some st₁ :=
      insertAttempt_returns fits event endpoint
    obtain ⟨st₁, inserted⟩ := inserts
    rw [deliverToEndpoint_inserted prior inserted, if_pos success]
    exact ⟨st₁, rfl⟩

/-- The rows behind a delivery. -/
theorem deliverToEndpoint_attempts (h : deliverToEndpoint cfg st r reaction d = some st')
    (new : st.db.hasSuccess d.event.id d.endpoint.id = false) :
    (st.db.HasRow d.event.id d.endpoint.id d.attemptNumber ∧ st'.db.attempts = st.db.attempts) ∨
      (¬ st.db.HasRow d.event.id d.endpoint.id d.attemptNumber ∧
        st'.db.attempts = st.db.attempts ++ [d.row reaction.reply]) := by
  unfold deliverToEndpoint at h
  rw [if_neg (by rw [new]; simp)] at h
  obtain ⟨st₁, inserted, h⟩ := Option.bind_eq_some_iff.1 h
  have attempts : st'.db.attempts = st₁.db.attempts := by
    split at h
    · obtain rfl := Option.some.inj h
      rfl
    · exact (retryOrBury_spares h).2.1
  rw [attempts]
  obtain ⟨-, ⟨taken, rfl⟩ | ⟨free, db, tables, rfl⟩⟩ := insertAttempt_cases inserted
  · exact .inl ⟨taken, rfl⟩
  · refine .inr ⟨free, ?_⟩
    dsimp only
    rw [tables]
    rfl

end
end HookRelay
