import HookRelay.System

/-!
# What a step can do

`Moves` lists the steps of a `_process_record` call and `Transition` the steps of the system,
each with its guard and the state after it. `step_transition` inverts `State.step` once; the
invariants argue by cases on `Transition` and never unfold a step again.
-/

namespace HookRelay

open ConsumerGroup (LoopAction)

/-! ## Calls -/

/-- The steps of a call on the record `r`. -/
inductive Moves (cfg : Settings) (st : Store) (r : Record Message) :
    Call → TaskAction → Store → Call → Prop where
  | resolve : Moves cfg st r .resolving .resolve st (resolveTargets st.db.toTables r.value)
  | skip {d : Delivery} (stage : d.stage = .checking)
      (prior : st.db.hasSuccess d.event.id d.endpoint.id = true) :
      Moves cfg st r (.delivering d) .select st d.next
  | pass {d : Delivery} (stage : d.stage = .checking)
      (prior : st.db.hasSuccess d.event.id d.endpoint.id = false) :
      Moves cfg st r (.delivering d) .select st (d.goto .posting)
  | post {d : Delivery} {result : HttpResult} (stage : d.stage = .posting) :
      Moves cfg st r (.delivering d) (.post result) (st.log (.posted r (d.post result)))
        (d.goto (.recording result))
  | conflict {d : Delivery} {result : HttpResult} (stage : d.stage = .recording result)
      (taken : st.db.HasRow d.event.id d.endpoint.id d.attemptNumber) (stored : result.storable = true) :
      Moves cfg st r (.delivering d) .record st
        (if result.succeeded then d.next else d.goto (.failed result))
  | record {d : Delivery} {result : HttpResult} {db : Database} (stage : d.stage = .recording result)
      (free : ¬ st.db.HasRow d.event.id d.endpoint.id d.attemptNumber)
      (unlocked : st.eventLocked d.event.id = false)
      (endpoint : d.endpoint.id ∈ st.db.endpointIds)
      (tables : db.toTables =
        { st.db.toTables with attempts := st.db.attempts ++ [d.row result] })
      (stored : result.storable = true) :
      Moves cfg st r (.delivering d) .record ({ st with db }.log (.recorded r (d.row result)))
        (if result.succeeded then d.next else d.goto (.failed result))
  | schedule {d : Delivery} {result : HttpResult} {retryAfter : Nat}
      (stage : d.stage = .failed result) (left : d.exhausted cfg result = false) :
      Moves cfg st r (.delivering d) (.schedule retryAfter)
        (Store.log
          { st with redis := st.redis.schedule d.nextMember d.nextMessage retryAfter }
          (.scheduled d.nextMember))
        d.next
  | dlqConflict {d : Delivery} {result : HttpResult} {id : UUID} (stage : d.stage = .failed result)
      (exhausted : d.exhausted cfg result = true) (taken : st.db.HasDlq d.event.id d.endpoint.id)
      (settled : ∀ e ∈ st.db.dlq, e.eventId = d.event.id → e.endpointId = d.endpoint.id →
        st.dlqDeleting e.id = false) :
      Moves cfg st r (.delivering d) (.insertDlq id) st (d.goto .cancelling)
  | insertDlq {d : Delivery} {result : HttpResult} {id : UUID} {db : Database}
      (stage : d.stage = .failed result) (exhausted : d.exhausted cfg result = true)
      (free : ¬ st.db.HasDlq d.event.id d.endpoint.id)
      (unlocked : st.eventLocked d.event.id = false)
      (endpoint : d.endpoint.id ∈ st.db.endpointIds) (fresh : id ∉ st.db.issued)
      (tables : db.toTables = { st.db.toTables with
        dlq := st.db.dlq ++ [⟨id, d.event.id, d.endpoint.id, Delivery.reason cfg result⟩]
        issued := id :: st.db.issued }) :
      Moves cfg st r (.delivering d) (.insertDlq id) { st with db } (d.goto .cancelling)
  | cancel {d : Delivery} (stage : d.stage = .cancelling) :
      Moves cfg st r (.delivering d) (.cancel true)
        { st with redis := st.redis.cancel d.member } (d.goto .notifying)
  | cancelFailed {d : Delivery} (stage : d.stage = .cancelling) :
      Moves cfg st r (.delivering d) (.cancel false) st (d.goto .notifying)
  | notify {d : Delivery} (stage : d.stage = .notifying) :
      Moves cfg st r (.delivering d) (.notify true)
        { st with dlqTopic := st.dlqTopic ++ [(d.event.id, d.endpoint.id)] } d.next
  | notifyFailed {d : Delivery} (stage : d.stage = .notifying) :
      Moves cfg st r (.delivering d) (.notify false) st d.next

section Calls

variable {cfg : Settings} {st st' : Store} {r : Record Message} {c c' : Call} {d : Delivery}

theorem Delivery.record_moves (h : d.record st r = some (st', c')) :
    Moves cfg st r (.delivering d) .record st' c' := by
  unfold Delivery.record at h
  split at h
  · rename_i result stage
    by_cases taken : st.db.conflictsAttempt (d.row result)
    · simp only [taken, Bool.not_true, Bool.false_and, Bool.false_eq_true, if_false,
        if_true, Option.bind_eq_bind, Option.bind_eq_some_iff, Option.some.injEq,
        Prod.mk.injEq] at h
      obtain ⟨db, hdb, rfl, rfl⟩ := h
      rw [Database.insertAttempt, Database.exec_eq_some] at hdb
      rcases Tables.insertAttempt_cases hdb with ⟨stored, ⟨row, same⟩ | ⟨free, -⟩⟩
      · cases Database.ext_tables same
        exact .conflict stage row stored
      · exact absurd (Tables.conflictsAttempt_iff.1 taken) free
    · simp only [taken, Bool.not_false, Bool.true_and, Bool.false_eq_true, if_false,
        Option.bind_eq_bind, Option.ite_none_left_eq_some, Option.bind_eq_some_iff,
        Option.some.injEq, Prod.mk.injEq] at h
      obtain ⟨unlocked, db, hdb, rfl, rfl⟩ := h
      rw [Database.insertAttempt, Database.exec_eq_some] at hdb
      rcases Tables.insertAttempt_cases hdb with ⟨stored, ⟨row, -⟩ | ⟨free, -, endpoint, tables⟩⟩
      · exact absurd (Tables.conflictsAttempt_iff.2 row) taken
      · exact .record stage free (by simpa using unlocked) endpoint tables stored
  · cases h

theorem Delivery.insertDlq_moves {id : UUID} (h : d.insertDlq cfg st id = some (st', c')) :
    Moves cfg st r (.delivering d) (.insertDlq id) st' c' := by
  unfold Delivery.insertDlq at h
  split at h
  · rename_i result stage
    simp only [Option.bind_eq_bind, Option.ite_none_right_eq_some, Bool.and_eq_true,
      Option.bind_eq_some_iff, Option.some.injEq, Prod.mk.injEq] at h
    obtain ⟨⟨exhausted, wait⟩, db, hdb, rfl, rfl⟩ := h
    rw [Database.insertDlq, Database.exec_eq_some] at hdb
    rcases Tables.insertDlq_cases hdb with ⟨taken, same⟩ | ⟨free, fresh, -, endpoint, tables⟩
    · cases Database.ext_tables same
      rw [if_pos (Tables.conflictsDlq_iff.2 taken)] at wait
      refine .dlqConflict stage exhausted taken fun e he hev hep => ?_
      have := List.all_eq_true.1 wait e he
      simpa [DLQEntry.pair, hev, hep] using this
    · rw [if_neg fun conflict => free (Tables.conflictsDlq_iff.1 conflict)] at wait
      exact .insertDlq stage exhausted free (by simpa using wait) endpoint fresh tables
  · cases h

/-- Every step of a call is one of `Moves`. -/
theorem Call.step_moves {a : TaskAction} (h : c.step cfg st r a = some (st', c')) :
    Moves cfg st r c a st' c' := by
  cases c with
  | resolving =>
    cases a <;> simp only [Call.step, Option.some.injEq, Prod.mk.injEq, reduceCtorEq] at h
    obtain ⟨rfl, rfl⟩ := h
    exact .resolve
  | finished => cases a <;> cases h
  | delivering d =>
    cases a <;> simp only [Call.step, reduceCtorEq] at h
    case select =>
      simp only [Delivery.select, Option.ite_none_right_eq_some, Option.some.injEq,
        Prod.mk.injEq] at h
      obtain ⟨stage, rfl, rfl⟩ := h
      split
      · exact .skip stage ‹_›
      · rename_i prior
        exact .pass stage (by simpa using prior)
    case post =>
      simp only [Delivery.request, Option.ite_none_right_eq_some, Option.some.injEq,
        Prod.mk.injEq] at h
      obtain ⟨stage, rfl, rfl⟩ := h
      exact .post stage
    case record => exact d.record_moves h
    case schedule =>
      unfold Delivery.schedule at h
      split at h
      · simp only [Option.ite_none_left_eq_some, Bool.not_eq_true, Option.some.injEq,
          Prod.mk.injEq] at h
        obtain ⟨left, rfl, rfl⟩ := h
        exact .schedule ‹_› left
      · cases h
    case insertDlq => exact d.insertDlq_moves h
    case cancel available =>
      simp only [Delivery.cancel, Option.ite_none_right_eq_some, Option.some.injEq,
        Prod.mk.injEq] at h
      obtain ⟨stage, rfl, rfl⟩ := h
      cases available
      · exact .cancelFailed stage
      · exact .cancel stage
    case notify available =>
      simp only [Delivery.notify, Option.ite_none_right_eq_some, Option.some.injEq,
        Prod.mk.injEq] at h
      obtain ⟨stage, rfl, rfl⟩ := h
      cases available
      · exact .notifyFailed stage
      · exact .notify stage

end Calls

/-! ## The system -/

/-- The steps of the system. -/
inductive Transition (cfg : Settings) (s : State) : Action → State → Prop where
  | createEndpoint {id : UUID} {body : EndpointCreate} {db : Database}
      (fresh : id ∉ s.store.db.issued)
      (tables : db.toTables = { s.store.db.toTables with
        endpoints := s.store.db.endpoints ++ [body.endpoint id]
        issued := id :: s.store.db.issued }) :
      Transition cfg s (.createEndpoint id body) (s.setDb db)
  | updateEndpoint {id : UUID} {body : EndpointUpdate} {p p' : Endpoint}
      (found : s.store.db.getEndpoint id = some p) (applied : body.apply p = some p') :
      Transition cfg s (.updateEndpoint id body) (s.setDb (s.store.db.updateEndpoint id fun _ => p'))
  | deleteEndpoint {id : UUID} (found : id ∈ s.store.db.endpointIds)
      (free : ∀ d ∈ s.store.db.dlq, d.endpointId = id → s.store.dlqLocked d.id = false) :
      Transition cfg s (.deleteEndpoint id) (s.setDb (s.store.db.deleteEndpoint id))
  | ingestKnown {id outboxId : UUID} {body : EventCreate} :
      Transition cfg s (.ingest id outboxId body) s
  | ingest {id outboxId : UUID} {body : EventCreate} {db : Database}
      (fresh : id ∉ s.store.db.issued) (freshOutbox : outboxId ∉ s.store.db.issued)
      (tables : db.toTables = { s.store.db.toTables with
        events := s.store.db.events ++ [body.event id]
        outbox := s.store.db.outbox ++ [{ id := outboxId, eventId := id }]
        issued := outboxId :: id :: s.store.db.issued }) :
      Transition cfg s (.ingest id outboxId body) (s.setDb db)
  | deleteDlq {id : UUID} {d : DLQEntry} (found : d ∈ s.store.db.dlq) (same : d.id = id)
      (free : s.store.dlqLocked id = false) :
      Transition cfg s (.deleteDlq id) (s.setDb (s.store.db.deleteDlq [id]))
  | retryEvent {id : UUID} (found : id ∈ s.store.db.eventIds)
      (free : s.store.eventLocked id = false) :
      Transition cfg s (.retryEvent id) (s.addRequest .retry id)
  | replayDlq {id : UUID} {d : DLQEntry} (found : d ∈ s.store.db.dlq) (same : d.id = id)
      (free : s.store.dlqLocked id = false) :
      Transition cfg s (.replayDlq id) (s.addRequest (.replay id) d.eventId)
  | requestPublish {i p o : Nat} {q : Request} {group : ConsumerGroup Message Call}
      (found : s.store.requests[i]? = some q) (stage : q.stage = .locked)
      (appended : s.group.append ⟨p, o, .fanOut q.eventId⟩ = some group) :
      Transition cfg s (.request i (.publish p o))
        (State.setRequest { s with
          group, store := s.store.log (.published ⟨p, o, .fanOut q.eventId⟩) } i
          { q with stage := .published ⟨p, o, .fanOut q.eventId⟩ })
  | requestDelete {i : Nat} {q : Request} {r : Record Message}
      (found : s.store.requests[i]? = some q) (stage : q.stage = .published r)
      (free : q.kind ≠ .retry ∨
        ∀ id ∈ State.deletes s.store.db.toTables q, s.store.dlqLocked id = false) :
      Transition cfg s (.request i .delete)
        (s.setRequest i { q with stage := .deleted r (State.deletes s.store.db.toTables q) })
  | requestCommit {i : Nat} {q : Request} {r : Record Message} {rows : List UUID}
      (found : s.store.requests[i]? = some q) (stage : q.stage = .deleted r rows) :
      Transition cfg s (.request i .commit)
        ((s.setDb ((s.store.db.deleteDlq rows).setStatus q.eventId .pending)).setRequest i
          { q with stage := .committed r rows })
  | requestAbort {i : Nat} {q : Request} (found : s.store.requests[i]? = some q)
      (opened : q.isOpen = true) :
      Transition cfg s (.request i .abort) (s.setRequest i { q with stage := .aborted })
  | relaySleep {w : Nat} (found : s.relays[w]? = some .idle) : Transition cfg s (.relay w .select) s
  | relaySelect {w : Nat} (found : s.relays[w]? = some .idle) :
      Transition cfg s (.relay w .select) (s.setRelay w (.batch s.selectable []))
  | relayPublish {w p o : Nat} {entry : OutboxEntry} {todo done : List OutboxEntry}
      {group : ConsumerGroup Message Call}
      (found : s.relays[w]? = some (.batch (entry :: todo) done))
      (appended : s.group.append ⟨p, o, .fanOut entry.eventId⟩ = some group) :
      Transition cfg s (.relay w (.publish p o))
        (State.setRelay { s with
          group, store := s.store.log (.published ⟨p, o, .fanOut entry.eventId⟩) } w
          (.batch todo (done ++ [entry])))
  | relayCommit {w : Nat} {done : List OutboxEntry} (found : s.relays[w]? = some (.batch [] done)) :
      Transition cfg s (.relay w .commit)
        ((s.setDb (s.store.db.deleteOutbox (done.map (·.id)))).setRelay w .idle)
  | poll {w now : Nat} (found : s.schedulers[w]? = some .idle) :
      Transition cfg s (.scheduler w (.poll now))
        (s.setScheduler w (.next (s.store.redis.pollDue now)))
  | schedulerPublish {w p o : Nat} {m : Message} {rest : List Message}
      {group : ConsumerGroup Message Call} (found : s.schedulers[w]? = some (.due (m :: rest)))
      (targeted : m.endpointId.isSome = true) (appended : s.group.append ⟨p, o, m⟩ = some group) :
      Transition cfg s (.scheduler w (.publish p o))
        (State.setScheduler { s with group, store := s.store.log (.published ⟨p, o, m⟩) } w
          (.cancelling m rest))
  | schedulerCancel {w : Nat} {m : Message} {endpointId : UUID} {rest : List Message}
      (found : s.schedulers[w]? = some (.cancelling m rest)) (target : m.endpointId = some endpointId) :
      Transition cfg s (.scheduler w .cancel)
        (State.setScheduler { s with store := { s.store with
          redis := s.store.redis.cancel ⟨m.eventId, endpointId, m.attempt⟩ } } w (.next rest))
  | schedulerSkip {w : Nat} {m : Message} {rest : List Message}
      (found : s.schedulers[w]? = some (.due (m :: rest))) (untargeted : m.endpointId = none) :
      Transition cfg s (.scheduler w .skip) (s.setScheduler w (.next rest))
  | spawn : Transition cfg s (.loop .spawn)
      { s with
        group := s.group.spawn
        schedulers := s.schedulers ++ [.idle]
        relays := s.relays ++ [.idle] }
  | crash {w : Nat} {group : ConsumerGroup Message Call}
      (crashed : s.group.loopStep cfg.workerConcurrency (fun _ => .resolving) (.crash w) =
        some group) :
      Transition cfg s (.loop (.crash w))
        (({ s with group }.setScheduler w .idle).setRelay w .idle)
  | loop {a : LoopAction Message} {group : ConsumerGroup Message Call}
      (stepped : s.group.loopStep cfg.workerConcurrency (fun _ => .resolving) a = some group)
      (running : ∀ w, a ≠ .crash w) :
      Transition cfg s (.loop a) { s with group }
  | task {i : Nat} {a : TaskAction} {t : Task Message Call} {store : Store} {call : Call}
      (found : s.group.tasks[i]? = some t)
      (moved : Moves cfg s.store t.record t.data a store call) :
      Transition cfg s (.task i a)
        { s with
          store
          group := { s.group with tasks := s.group.tasks.set i { t with data := call } } }
  | finish {i : Nat} {o : Outcome} {t : Task Message Call} {group : ConsumerGroup Message Call}
      (found : s.group.tasks[i]? = some t) (pure : o ≠ .poisonPill)
      (ended : o = .returned → t.data = .finished) (finished : s.group.finish i o = some group) :
      Transition cfg s (.finish i o) { s with group }
  | duplicate {r : Record Message} {p o : Nat} {group : ConsumerGroup Message Call}
      (present : r ∈ s.group.log) (appended : s.group.append ⟨p, o, r.value⟩ = some group) :
      Transition cfg s (.duplicate r p o)
        { s with group, store := s.store.log (.published ⟨p, o, r.value⟩) }

section Inversion

variable {cfg : Settings} {s s' : State}

theorem publish_eq_some {m : Message} {p o : Nat} (h : s.publish m p o = some s') :
    ∃ group, s.group.append ⟨p, o, m⟩ = some group ∧
      s' = { s with group, store := s.store.log (.published ⟨p, o, m⟩) } := by
  simp only [State.publish, Option.bind_eq_bind, Option.bind_eq_some_iff, Option.some.injEq] at h
  obtain ⟨group, hg, rfl⟩ := h
  exact ⟨group, hg, rfl⟩

theorem request_transition {i : Nat} {a : RequestAction} (h : s.requestStep i a = some s') :
    Transition cfg s (.request i a) s' := by
  simp only [State.requestStep, Option.bind_eq_bind, Option.bind_eq_some_iff] at h
  obtain ⟨q, found, h⟩ := h
  split at h
  · rename_i stage
    obtain ⟨t, ht, h⟩ := Option.bind_eq_some_iff.1 h
    cases h
    obtain ⟨group, appended, rfl⟩ := publish_eq_some ht
    exact .requestPublish found stage appended
  · rename_i stage
    simp only [Option.ite_none_right_eq_some, Option.some.injEq] at h
    obtain ⟨free, rfl⟩ := h
    exact .requestDelete found stage free
  · cases h; exact .requestCommit found ‹_›
  · simp only [Option.ite_none_right_eq_some, Option.some.injEq] at h
    obtain ⟨opened, rfl⟩ := h
    exact .requestAbort found opened
  · cases h

theorem relay_transition {w : Nat} {a : RelayAction} (h : s.relayStep w a = some s') :
    Transition cfg s (.relay w a) s' := by
  simp only [State.relayStep, Option.bind_eq_bind, Option.bind_eq_some_iff] at h
  obtain ⟨relay, found, h⟩ := h
  split at h
  · split at h
    · cases h; exact .relaySleep found
    · cases h; exact .relaySelect found
  · obtain ⟨t, ht, h⟩ := Option.bind_eq_some_iff.1 h
    cases h
    obtain ⟨group, appended, rfl⟩ := publish_eq_some ht
    exact .relayPublish found appended
  · cases h; exact .relayCommit found
  · cases h

theorem scheduler_transition {w : Nat} {a : SchedulerAction} (h : s.schedulerStep w a = some s') :
    Transition cfg s (.scheduler w a) s' := by
  simp only [State.schedulerStep, Option.bind_eq_bind, Option.bind_eq_some_iff] at h
  obtain ⟨scheduler, found, h⟩ := h
  split at h
  · cases h; exact .poll found
  · simp only [Option.ite_none_right_eq_some, Option.bind_eq_some_iff] at h
    obtain ⟨targeted, t, ht, h⟩ := h
    cases h
    obtain ⟨group, appended, rfl⟩ := publish_eq_some ht
    exact .schedulerPublish found targeted appended
  · simp only [Option.bind_eq_some_iff, Option.some.injEq] at h
    obtain ⟨endpointId, target, rfl⟩ := h
    exact .schedulerCancel found target
  · simp only [Option.ite_none_right_eq_some, Option.some.injEq, Option.isNone_iff_eq_none] at h
    obtain ⟨untargeted, rfl⟩ := h
    exact .schedulerSkip found untargeted
  · cases h

theorem loop_transition {a : LoopAction Message} (h : s.loopStep cfg a = some s') :
    Transition cfg s (.loop a) s' := by
  simp only [State.loopStep, Option.bind_eq_bind, Option.bind_eq_some_iff, Option.some.injEq] at h
  obtain ⟨group, stepped, rfl⟩ := h
  cases a with
  | spawn => cases stepped; exact .spawn
  | crash w => exact .crash stepped
  | assign | revoke | getmany | start | commitApply | commitDrop =>
    exact .loop stepped fun _ => by simp

theorem ingest_transition {id outboxId : UUID} {body : EventCreate}
    (h : s.ingest id outboxId body = some s') : Transition cfg s (.ingest id outboxId body) s' := by
  simp only [State.ingest, Option.bind_eq_bind, Option.bind_eq_some_iff, Option.some.injEq] at h
  obtain ⟨db, hdb, rfl⟩ := h
  rw [Database.insertEvent, Database.exec_eq_some, Tables.insertEvent] at hdb
  split at hdb
  · rw [← Database.ext_tables (Option.some.inj hdb)]
    exact .ingestKnown
  · simp only [Option.ite_none_left_eq_some, not_or, Option.some.injEq] at hdb
    exact .ingest hdb.1.1 hdb.1.2.1 hdb.2.symm

/-- Every step of the system is one of `Transition`. -/
theorem step_transition {a : Action} (h : s.step cfg a = some s') : Transition cfg s a s' := by
  cases a with
  | createEndpoint id body =>
    simp only [State.step, State.createEndpoint, Option.bind_eq_bind, Option.bind_eq_some_iff,
      Option.some.injEq] at h
    obtain ⟨db, hdb, rfl⟩ := h
    rw [Database.insertEndpoint, Database.exec_eq_some] at hdb
    simp only [Tables.insertEndpoint, Option.ite_none_left_eq_some, Option.some.injEq] at hdb
    exact .createEndpoint hdb.1 hdb.2.symm
  | updateEndpoint id body =>
    simp only [State.step, State.updateEndpoint, Option.bind_eq_bind, Option.bind_eq_some_iff,
      Option.some.injEq] at h
    obtain ⟨p, found, p', applied, rfl⟩ := h
    exact .updateEndpoint found applied
  | deleteEndpoint id =>
    simp only [State.step, State.deleteEndpoint, Option.bind_eq_bind, Option.bind_eq_some_iff,
      Option.ite_none_right_eq_some, Option.some.injEq] at h
    obtain ⟨p, found, free, rfl⟩ := h
    obtain ⟨hp, rfl⟩ := Tables.getEndpoint_some found
    refine .deleteEndpoint (Tables.mem_endpointIds.2 ⟨p, hp, rfl⟩) fun d hd he => ?_
    simpa [he] using List.all_eq_true.1 free d hd
  | ingest id outboxId body => exact ingest_transition h
  | deleteDlq id =>
    simp only [State.step, State.deleteDlq, Option.bind_eq_bind, Option.bind_eq_some_iff,
      Option.ite_none_left_eq_some, Bool.not_eq_true, Option.some.injEq] at h
    obtain ⟨d, found, free, rfl⟩ := h
    exact .deleteDlq (Tables.getDlq_some found).1 (Tables.getDlq_some found).2 free
  | retryEvent id =>
    simp only [State.step, State.retryEvent, Option.bind_eq_bind, Option.bind_eq_some_iff,
      Option.ite_none_left_eq_some, Bool.not_eq_true, Option.some.injEq] at h
    obtain ⟨e, found, free, rfl⟩ := h
    obtain ⟨he, rfl⟩ := Tables.getEvent_some found
    exact .retryEvent (Tables.mem_eventIds.2 ⟨e, he, rfl⟩) free
  | replayDlq id =>
    simp only [State.step, State.replayDlq, Option.bind_eq_bind, Option.bind_eq_some_iff,
      Option.ite_none_left_eq_some, Bool.not_eq_true, Option.some.injEq] at h
    obtain ⟨d, found, free, rfl⟩ := h
    exact .replayDlq (Tables.getDlq_some found).1 (Tables.getDlq_some found).2 free
  | request i a => exact request_transition h
  | relay w a => exact relay_transition h
  | scheduler w a => exact scheduler_transition h
  | loop a => exact loop_transition h
  | task i a =>
    simp only [State.step, State.taskStep, ConsumerGroup.advance, Option.bind_eq_bind,
      Option.bind_eq_some_iff, Option.some.injEq, Prod.exists] at h
    obtain ⟨t, found, store, call, moved, _, ⟨t', found', rfl⟩, rfl⟩ := h
    cases found.symm.trans found'
    exact .task found (Call.step_moves moved)
  | finish i o =>
    simp only [State.step, State.finish, Option.bind_eq_bind, Option.bind_eq_some_iff,
      Option.ite_none_right_eq_some, Option.some.injEq] at h
    obtain ⟨t, found, possible, group, finished, rfl⟩ := h
    refine .finish found ?_ ?_ finished
    · rintro rfl; cases h : t.data <;> simp at possible
    · rintro rfl; cases h : t.data <;> simp [h] at possible ⊢
  | duplicate r p o =>
    simp only [State.step, State.duplicate, Option.ite_none_right_eq_some] at h
    obtain ⟨present, h⟩ := h
    obtain ⟨group, appended, rfl⟩ := publish_eq_some h
    exact .duplicate present appended

end Inversion

end HookRelay
