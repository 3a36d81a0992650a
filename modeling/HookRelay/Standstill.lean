import HookRelay.Exhaustion

/-!
# Where the work ends

A deployment in which nothing happens any more, though every worker goes on polling, has neither an outbox row nor a
retry, and every record of a partition that a worker has was fetched. If no call of theirs was lost, every record is
processed; then the duty to deliver an accepted event cannot be anywhere any more, and it has been discharged.
-/

namespace HookRelay

/-- What is in the hands of a scheduler can be dealt with. -/
def Scheduler.Sound : Scheduler → Prop
  | .idle => True
  | .due messages => messages ≠ []
  | .cancelling m _ => m.endpointId.isSome = true

theorem Scheduler.sound_next (messages : List Message) : (Scheduler.next messages).Sound := by
  cases messages with
  | nil => trivial
  | cons m rest => exact List.cons_ne_nil m rest

/-- Nobody has anything to do. -/
structure State.Spent (s : State) : Prop where
  requests : ∀ q ∈ s.store.requests, q.isOpen = false
  relays : ∀ relay ∈ s.relays, relay = .idle
  outbox : s.relays = [] ∨ s.store.db.outbox = []
  schedulers : ∀ sch ∈ s.schedulers, sch = .idle
  redis : s.schedulers = [] ∨ s.store.redis.zset.keys = []
  tasks : s.group.tasks = []
  commits : s.group.commits = []
  batches : ∀ worker ∈ s.group.workers, worker.batch = []
  fetched : ∀ worker ∈ s.group.workers, worker.fatal = true ∨ ∀ r ∈ s.group.log, worker.awaits r = false

instance (relay : Relay) : Decidable (relay = .idle) :=
  match relay with
  | .idle => isTrue rfl
  | .batch _ _ => isFalse nofun

instance (sch : Scheduler) : Decidable (sch = .idle) :=
  match sch with
  | .idle => isTrue rfl
  | .due _ => isFalse nofun
  | .cancelling _ _ => isFalse nofun

instance (s : State) : Decidable s.Spent :=
  decidable_of_iff ((∀ q ∈ s.store.requests, q.isOpen = false) ∧ (∀ relay ∈ s.relays, relay = .idle) ∧
    (s.relays = [] ∨ s.store.db.outbox = []) ∧ (∀ sch ∈ s.schedulers, sch = .idle) ∧
    (s.schedulers = [] ∨ s.store.redis.zset.keys = []) ∧ s.group.tasks = [] ∧ s.group.commits = [] ∧
    (∀ worker ∈ s.group.workers, worker.batch = []) ∧
    ∀ worker ∈ s.group.workers, worker.fatal = true ∨ ∀ r ∈ s.group.log, worker.awaits r = false)
    ⟨fun ⟨requests, relays, outbox, schedulers, redis, tasks, commits, batches, fetched⟩ =>
      ⟨requests, relays, outbox, schedulers, redis, tasks, commits, batches, fetched⟩,
      fun h => ⟨h.requests, h.relays, h.outbox, h.schedulers, h.redis, h.tasks, h.commits, h.batches, h.fetched⟩⟩

/-- Every partition that has records is with a worker that is in its loop and has lost no call. -/
structure State.Served (s : State) : Prop where
  workers : s.group.workers ≠ []
  partitions : ∀ r ∈ s.group.log, ∃ worker ∈ s.group.workers, worker.fatal = false ∧
    (worker.positions r.partition).isSome = true ∧ (worker.watermarks r.partition).inFlight = ∅

instance (s : State) : Decidable s.Served :=
  decidable_of_iff (s.group.workers ≠ [] ∧ ∀ r ∈ s.group.log, ∃ worker ∈ s.group.workers, worker.fatal = false ∧
    (worker.positions r.partition).isSome = true ∧ (worker.watermarks r.partition).inFlight = ∅)
    ⟨fun ⟨workers, partitions⟩ => ⟨workers, partitions⟩, fun h => ⟨h.workers, h.partitions⟩⟩

section Still

variable {cfg : Settings} {s s' : State}

theorem schedulers_sound (reach : Reachable cfg s) : ∀ sch ∈ s.schedulers, sch.Sound := by
  refine reach.invariant (I := fun s => ∀ sch ∈ s.schedulers, sch.Sound) (fun s a s' h _ hs => ?_) (by simp [initial])
  have set : ∀ {w : Nat} {new : Scheduler}, new.Sound → ∀ sch ∈ s.schedulers.set w new, sch.Sound := by
    intro w new sound sch hsch
    rcases List.mem_or_eq_of_mem_set hsch with old | rfl
    · exact h sch old
    · exact sound
  cases step_transition hs with
  | poll => exact set (Scheduler.sound_next _)
  | schedulerPublish _ targeted => exact set targeted
  | schedulerCancel | schedulerSkip => exact set (Scheduler.sound_next _)
  | spawn =>
    intro sch hsch
    rcases List.mem_append.1 hsch with old | new
    · exact h sch old
    · rw [List.mem_singleton.1 new]
      trivial
  | crash => exact set trivial
  | _ => exact h

/-- What a step that is possible leaves when nothing more can happen. -/
theorem still_same (still : Lts.Stuck (State.step cfg) (Busy cfg) s) {a : Action} (own : a.own = true)
    (hs : s.step cfg a = some s') : s' = s := by
  by_contra changed
  have none := still a ⟨own, fun same => changed (Option.some.inj (hs.symm.trans same))⟩
  rw [hs] at none
  cases none

section Stuck

variable (still : Lts.Stuck (State.step cfg) (Busy cfg) s)
include still

theorem still_requests : ∀ q ∈ s.store.requests, q.isOpen = false := by
  intro q hq
  obtain ⟨i, found⟩ := List.getElem?_of_mem hq
  by_contra opened
  have opened : q.isOpen = true := by simpa using opened
  have step : s.step cfg (.request i .abort) = some (s.setRequest i { q with stage := .aborted }) := by
    simp [State.step, State.requestStep, found, opened]
  have same := congrArg (fun t => t.store.requests[i]?) (still_same still rfl step)
  have bound := (List.getElem?_eq_some_iff.1 found).1
  simp only [State.setRequest, List.getElem?_set_self bound, found, Option.some.injEq] at same
  rw [← same] at opened
  cases opened

theorem still_relays : ∀ relay ∈ s.relays, relay = .idle := by
  intro relay hr
  obtain ⟨w, found⟩ := List.getElem?_of_mem hr
  have bound := (List.getElem?_eq_some_iff.1 found).1
  have unchanged : ∀ a new {t : State}, s.step cfg (.relay w a) = some t → t.relays = s.relays.set w new →
      new = relay := by
    intro a new t step relays
    rw [still_same still rfl step] at relays
    have same := congrArg (·[w]?) relays
    rw [List.getElem?_set_self bound, found] at same
    exact (Option.some.inj same).symm
  cases relay with
  | idle => rfl
  | batch todo done =>
    cases todo with
    | cons entry todo =>
      have appended := ConsumerGroup.append_endOffset (g := s.group) 0 (Message.fanOut entry.eventId)
      have same := unchanged (.publish 0 (s.group.endOffset 0)) (.batch todo (done ++ [entry]))
        (by simp only [State.step, State.relayStep, State.publish, found, appended, Option.bind_eq_bind,
          Option.bind_some]; rfl) rfl
      have shorter := congrArg List.length (Relay.batch.inj same).1
      rw [List.length_cons] at shorter
      omega
    | nil =>
      have same := unchanged .commit .idle
        (by simp only [State.step, State.relayStep, found, Option.bind_eq_bind, Option.bind_some]; rfl) rfl
      cases same

theorem still_outbox : s.relays = [] ∨ s.store.db.outbox = [] := by
  refine or_iff_not_imp_left.2 fun some_relay => ?_
  obtain ⟨relay, hr⟩ := List.exists_mem_of_ne_nil _ some_relay
  obtain ⟨w, found⟩ := List.getElem?_of_mem hr
  rw [still_relays still relay hr] at found
  by_contra left
  have some_rows : s.selectable ≠ [] := by
    rw [selectable_idle (still_relays still)]
    simpa [relayBatch] using left
  have selected : s.step cfg (.relay w .select) = some (s.setRelay w (.batch s.selectable [])) := by
    simp only [State.step, State.relayStep, found, Option.bind_eq_bind, Option.bind_some]
  have same := congrArg (fun t => t.relays[w]?) (still_same still rfl selected)
  simp only [State.setRelay, List.getElem?_set_self (List.getElem?_eq_some_iff.1 found).1, found] at same
  cases same

theorem still_commits : s.group.commits = [] := by
  by_contra some_commit
  have bound := List.length_pos_iff.2 some_commit
  have dropped : s.step cfg (.loop (.commitDrop 0)) =
      some { s with group := { s.group with commits := s.group.commits.eraseIdx 0 } } := by
    simp [State.step, State.loopStep, ConsumerGroup.loopStep, ConsumerGroup.commitDrop, bound]
  have same := congrArg (fun t => t.group.commits.length) (still_same still rfl dropped)
  simp only [List.length_eraseIdx, bound, if_true] at same
  omega

variable (reach : Reachable cfg s)
include reach

theorem still_schedulers : ∀ sch ∈ s.schedulers, sch = .idle := by
  intro sch hsch
  obtain ⟨w, found⟩ := List.getElem?_of_mem hsch
  have bound := (List.getElem?_eq_some_iff.1 found).1
  have sound := schedulers_sound reach sch hsch
  have unchanged : ∀ a new {t : State}, s.step cfg (.scheduler w a) = some t →
      t.schedulers = s.schedulers.set w new → new = sch := by
    intro a new t step schedulers
    rw [still_same still rfl step] at schedulers
    have same := congrArg (·[w]?) schedulers
    rw [List.getElem?_set_self bound, found] at same
    exact (Option.some.inj same).symm
  have shorter : ∀ {m : Message} {rest}, (Scheduler.next rest).messages ≠ m :: rest := by
    intro m rest same
    rw [Scheduler.next_messages] at same
    exact List.cons_ne_self m rest same.symm
  cases sch with
  | idle => rfl
  | due messages =>
    obtain ⟨m, rest, rfl⟩ := List.exists_cons_of_ne_nil sound
    cases target : m.endpointId with
    | none =>
      have same := unchanged .skip (.next rest)
        (by simp only [State.step, State.schedulerStep, found, target, Option.isNone_none, if_true,
          Option.bind_eq_bind, Option.bind_some]; rfl) rfl
      exact absurd (congrArg Scheduler.messages same) shorter
    | some endpointId =>
      have appended := ConsumerGroup.append_endOffset (g := s.group) 0 m
      have same := unchanged (.publish 0 (s.group.endOffset 0)) (.cancelling m rest)
        (by simp only [State.step, State.schedulerStep, State.publish, found, target, appended, Option.isSome_some,
          if_true, Option.bind_eq_bind, Option.bind_some]; rfl) rfl
      cases same
  | cancelling m rest =>
    obtain ⟨endpointId, target⟩ := Option.isSome_iff_exists.1 sound
    have same := unchanged .cancel (.next rest)
      (by simp only [State.step, State.schedulerStep, found, target, Option.bind_eq_bind, Option.bind_some]; rfl) rfl
    exact absurd (congrArg Scheduler.messages same) shorter

theorem still_redis : s.schedulers = [] ∨ s.store.redis.zset.keys = [] := by
  refine or_iff_not_imp_left.2 fun some_scheduler => ?_
  obtain ⟨sch, hsch⟩ := List.exists_mem_of_ne_nil _ some_scheduler
  obtain ⟨w, found⟩ := List.getElem?_of_mem hsch
  rw [still_schedulers still reach sch hsch] at found
  by_contra left
  obtain ⟨k, hk⟩ := List.exists_mem_of_ne_nil _ left
  have held : s.store.redis.Holds k := RedisRetryScheduler.mem_zset_iff.1 (AList.mem_keys.2 hk)
  obtain ⟨now, due⟩ := RedisRetryScheduler.dueMembers_ne_nil held
  have polled : s.step cfg (.scheduler w (.poll now)) =
      some (s.setScheduler w (.next (s.store.redis.pollDue now))) := by
    simp only [State.step, State.schedulerStep, found, Option.bind_eq_bind, Option.bind_some]
  have same := congrArg (fun t => t.schedulers[w]?) (still_same still rfl polled)
  simp only [State.setScheduler, List.getElem?_set_self (List.getElem?_eq_some_iff.1 found).1, found,
    Option.some.injEq] at same
  have none := congrArg Scheduler.messages same
  rw [Scheduler.next_messages, RedisRetryScheduler.pollDue_members (stored_message reach)] at none
  exact due (List.map_eq_nil_iff.1 none)

theorem still_tasks : s.group.tasks = [] := by
  by_contra some_task
  obtain ⟨t, ht⟩ := List.exists_mem_of_ne_nil _ some_task
  obtain ⟨i, found⟩ := List.getElem?_of_mem ht
  have owner := (group_capacity reach).owner t ht
  have finished : s.step cfg (.finish i .cancelled) = some { s with group := { s.group with
      workers := s.group.workers.set t.worker s.group.workers[t.worker].release
      tasks := s.group.tasks.eraseIdx i } } := by
    simp [State.step, State.finish, ConsumerGroup.finish, found, List.getElem?_eq_getElem owner, Outcome.advance]
  have same := congrArg (fun t => t.group.tasks.length) (still_same still rfl finished)
  have bound := (List.getElem?_eq_some_iff.1 found).1
  simp only [List.length_eraseIdx, bound, if_true] at same
  omega

theorem still_batches (capacity : 0 < cfg.workerConcurrency) : ∀ worker ∈ s.group.workers, worker.batch = [] := by
  intro worker hw
  obtain ⟨w, found⟩ := List.getElem?_of_mem hw
  cases batch : worker.batch with
  | nil => rfl
  | cons r rest =>
    let started : Worker Message :=
      { worker.acquire.setWatermark r.partition ((worker.watermarks r.partition).start r.offset) with batch := rest }
    have free : 0 < worker.permits cfg.workerConcurrency := by
      have all := (group_capacity reach).semaphore w worker found
      rw [ConsumerGroup.inFlight, still_tasks still reach, List.countP_nil] at all
      omega
    have begun : s.step cfg (.loop (.start w)) = some { s with group := { s.group with
        workers := s.group.workers.set w started, tasks := s.group.tasks ++ [⟨w, r, .resolving⟩] } } := by
      simp only [State.step, State.loopStep, ConsumerGroup.loopStep, ConsumerGroup.start, found, batch, free,
        if_true, Option.bind_eq_bind, Option.bind_some]
      rfl
    have same := congrArg (fun t => t.group.tasks.length) (still_same still rfl begun)
    simp only [List.length_append, List.length_singleton] at same
    omega

theorem still_fetched (capacity : 0 < cfg.workerConcurrency) :
    ∀ worker ∈ s.group.workers, worker.fatal = true ∨ ∀ r ∈ s.group.log, worker.awaits r = false := by
  intro worker hw
  obtain ⟨w, found⟩ := List.getElem?_of_mem hw
  cases calm : worker.fatal with
  | true => exact .inl rfl
  | false =>
    refine .inr fun r₀ hr₀ => ?_
    rw [← Bool.not_eq_true]
    intro waits
    obtain ⟨position, here, ahead⟩ := (Option.any_eq_true _ _).1 waits
    obtain ⟨r, hr, same, behind, first⟩ :=
      ConsumerGroup.exists_first r₀.offset r₀ hr₀ rfl rfl (of_decide_eq_true ahead)
    rw [← same] at here first
    let fetched : Worker Message :=
      { worker.seek r.partition (some (r.offset + 1)) with batch := worker.batch ++ [r] }
    have fetch : ConsumerGroup.fetch s.group.log worker r = some fetched := by
      simp only [ConsumerGroup.fetch, here]
      rw [if_pos ⟨hr, behind, first⟩]
    have got : s.step cfg (.loop (.getmany w [r])) = some { s with group := { s.group with
        workers := s.group.workers.set w fetched } } := by
      have few : 1 ≤ cfg.workerConcurrency * 4 := by omega
      have empty := still_batches still reach capacity worker hw
      simp only [State.step, State.loopStep, ConsumerGroup.loopStep, ConsumerGroup.getmany, found, calm, empty, few,
        ConsumerGroup.fetchAll, fetch, Option.bind_eq_bind, Option.bind_some, List.length_singleton, and_self, if_true]
    have same := congrArg (fun t => t.group.workers[w]?) (still_same still rfl got)
    simp only [List.getElem?_set_self (List.getElem?_eq_some_iff.1 found).1, found, Option.some.injEq] at same
    have batch := congrArg (fun worker => worker.batch.length) same
    simp only [fetched, List.length_append, List.length_singleton] at batch
    omega

end Stuck

/-- Where nobody has anything to do, what is possible changes nothing. -/
theorem State.Spent.same (spent : s.Spent) {a : Action} (own : a.own = true) (hs : s.step cfg a = some s') :
    s' = s := by
  cases a with
  | request i b =>
    have closed : ∀ {q : Request}, s.store.requests[i]? = some q → q.isOpen = false := fun found =>
      spent.requests _ (List.mem_of_getElem? found)
    cases step_transition hs with
    | requestAbort found opened =>
      rw [closed found] at opened
      cases opened
    | requestPublish found stage | requestDelete found stage | requestCommit found stage =>
      have impossible := closed found
      rw [Request.isOpen, stage] at impossible
      cases impossible
  | relay w b =>
    obtain ⟨relay, found, hs⟩ := Option.bind_eq_some_iff.1 hs
    have hr := List.mem_of_getElem? found
    rw [spent.relays relay hr] at hs
    have empty := spent.outbox.resolve_left (List.ne_nil_of_mem hr)
    cases b with
    | publish | commit => cases hs
    | select =>
      have none : s.selectable = [] := by rw [State.selectable, empty]; rfl
      simp only [none, Option.some.injEq] at hs
      exact hs.symm
  | scheduler w b =>
    have idle : ∀ {sch : Scheduler}, s.schedulers[w]? = some sch → sch = .idle := fun found =>
      spent.schedulers _ (List.mem_of_getElem? found)
    cases step_transition hs with
    | schedulerPublish found | schedulerCancel found | schedulerSkip found => cases idle found
    | @poll _ now found =>
      have none := spent.redis.resolve_left (List.ne_nil_of_mem (List.mem_of_getElem? found))
      have nothing : RedisRetryScheduler.dueMembers s.store.redis.zset now pollBatch = [] :=
        List.eq_nil_iff_forall_not_mem.2 fun k hk => by
          have held := dueMembers_subset s.store.redis.zset now pollBatch hk
          rw [none] at held
          cases held
      rw [RedisRetryScheduler.pollDue, RedisRetryScheduler.pollScript, nothing]
      show { s with schedulers := s.schedulers.set w .idle } = s
      rw [Slots.set_same found]
  | loop b =>
    obtain ⟨group, stepped, same⟩ := Option.bind_eq_some_iff.1 hs
    cases b with
    | spawn | assign | revoke | crash => cases own
    | commitApply i =>
      obtain ⟨c, found, -⟩ := Option.bind_eq_some_iff.1 stepped
      rw [spent.commits] at found
      cases found
    | commitDrop i =>
      obtain ⟨bound, -⟩ := Option.ite_none_right_eq_some.1 stepped
      rw [spent.commits] at bound
      cases bound
    | start w =>
      obtain ⟨worker, found, stepped⟩ := Option.bind_eq_some_iff.1 stepped
      rw [spent.batches worker (List.mem_of_getElem? found)] at stepped
      cases stepped
    | getmany w records =>
      obtain ⟨worker, found, stepped⟩ := Option.bind_eq_some_iff.1 stepped
      obtain ⟨⟨calm, -⟩, stepped⟩ := Option.ite_none_right_eq_some.1 stepped
      obtain ⟨worker', fetched, stepped⟩ := Option.bind_eq_some_iff.1 stepped
      cases stepped
      cases same
      cases records with
      | nil =>
        cases fetched
        show { s with group := { s.group with workers := s.group.workers.set w worker } } = s
        rw [Slots.set_same found]
      | cons r records =>
        -- It would be a record that the worker awaits.
        obtain ⟨worker₁, first, -⟩ := Option.bind_eq_some_iff.1 fetched
        have none := (spent.fetched worker (List.mem_of_getElem? found)).resolve_left (by rw [calm]; simp)
        unfold ConsumerGroup.fetch at first
        split at first
        · cases first
        · rename_i position here
          obtain ⟨⟨present, ahead, -⟩, -⟩ := Option.ite_none_right_eq_some.1 first
          have waits := none r present
          rw [Worker.awaits, here, Option.any_some, decide_eq_false_iff_not] at waits
          exact absurd ahead waits
  | task i b =>
    obtain ⟨t, found, -⟩ := Option.bind_eq_some_iff.1 hs
    rw [spent.tasks] at found
    cases found
  | finish i o =>
    obtain ⟨t, found, -⟩ := Option.bind_eq_some_iff.1 hs
    rw [spent.tasks] at found
    cases found
  | _ => cases own

/-- **Nothing can happen any more exactly when nobody has anything to do.** -/
theorem stuck_iff_spent (reach : Reachable cfg s) (capacity : 0 < cfg.workerConcurrency) :
    Lts.Stuck (State.step cfg) (Busy cfg) s ↔ s.Spent := by
  constructor
  · intro still
    exact ⟨still_requests still, still_relays still, still_outbox still, still_schedulers still reach,
      still_redis still reach, still_tasks still reach, still_commits still, still_batches still reach capacity,
      still_fetched still reach capacity⟩
  · rintro spent a ⟨own, changes⟩
    by_contra possible
    obtain ⟨s', hs⟩ := Option.ne_none_iff_exists'.1 possible
    exact changes (spent.same own hs ▸ hs)

/-! ## What the work has led to -/

/-- Where the work ends, every record is processed. -/
theorem spent_processed (reach : Reachable cfg s) (spent : s.Spent) (served : s.Served) :
    ∀ r ∈ s.group.log, r ∈ s.group.processed := by
  intro r hr
  obtain ⟨worker, hw, calm, assigned, none⟩ := served.partitions r hr
  obtain ⟨position, here⟩ := Option.isSome_iff_exists.1 assigned
  have inv := (group_inv reach).workers worker hw
  have fetched := (spent.fetched worker hw).resolve_left (by rw [calm]; exact Bool.false_ne_true) r hr
  rw [Worker.awaits, here, Option.any_some, decide_eq_false_iff_not, Nat.not_le] at fetched
  rcases (inv.position r.partition position here).2 r hr rfl (Nat.zero_le _) fetched with (done | seen) | batch
  · exact done
  · refine (inv.covered r hr (Nat.zero_le _) seen).resolve_right fun flying => ?_
    rw [none] at flying
    exact absurd flying (Finset.notMem_empty _)
  · rw [spent.batches worker hw] at batch
    cases batch

/-- Where the work ends, an event that is owed to the endpoint is settled: nothing can hold the duty any more. -/
theorem Owed.settled {e p : UUID} (owed : Owed e p s) (reach : Reachable cfg s) (spent : s.Spent) (served : s.Served) :
    s.store.Settled e p := by
  have staffed := staffed reach
  have some_worker := List.length_pos_iff.2 served.workers
  have outbox := spent.outbox.resolve_left (List.length_pos_iff.1 (by rw [staffed.relays]; exact some_worker))
  have redis := spent.redis.resolve_left (List.length_pos_iff.1 (by rw [staffed.schedulers]; exact some_worker))
  obtain ⟨o, ho, -⟩ | ⟨r, hr, he⟩ := owed.outbox
  · rw [outbox] at ho
    cases ho
  obtain ⟨bound, hb⟩ := (s.group.log.map (·.value.attempt)).toFinset.exists_nat_subset_range
  have bounded : ∀ n, s.Published e p n → n < bound := by
    rintro n ⟨r, hr, -, rfl⟩
    exact Finset.mem_range.1 (hb (List.mem_toFinset.2 (List.mem_map_of_mem hr)))
  have first : s.Published e p 0 := ⟨r, hr, by rw [he]; exact ⟨rfl, .inl rfl⟩, by rw [he]; rfl⟩
  rcases owed.passed.exists_held bounded first with settled | ⟨n, ⟨r, hr, -, waits⟩ | held⟩
  · exact settled
  · exact absurd (spent_processed reach spent served r hr) waits
  · have member := AList.mem_keys.1 (RedisRetryScheduler.mem_zset_iff.2 held)
    rw [redis] at member
    cases member

/-- **Where the work ends, every accepted event is settled.** An event is accepted for an endpoint that is enabled and
subscribed to its type. Then, as long as the endpoint is left as it is and no operator intervenes, whenever nothing more
can happen and every partition is with a worker that has lost no call, the pair has a dead letter, or a POST of it was
answered with success. -/
theorem accepted_event_settled {s₀ s₁ : State} {e outboxId : UUID} {body : EventCreate} {q : Endpoint}
    {as : List Action} (capacity : 0 < cfg.workerConcurrency)
    (reach : Lts.Reachable (State.step cfg) Unattended initial s₀) (endpoint : q ∈ s₀.store.db.endpoints)
    (enabled : q.enabled = true) (subscribed : body.eventType ∈ q.eventTypes)
    (accepted : s₀.step cfg (.ingest e outboxId body) = some s₁) (new : e ∉ s₀.store.db.eventIds)
    (committed : e ∈ s₁.store.db.eventIds) (run : Lts.Run (State.step cfg) (Undisturbed q.id) s₁ as s)
    (still : Lts.Stuck (State.step cfg) (Busy cfg) s) (served : s.Served) :
    s.store.db.HasDlq e q.id ∨ s.store.Answered e q.id := by
  have none : s₀.store.requests = [] :=
    reach.invariant (I := fun s => s.store.requests = [])
      (fun _ _ _ h quiet hs => requests_step h (step_transition hs) quiet) rfl
  have matching : ∃ p ∈ s₀.store.db.matching body.eventType, p.id = q.id :=
    ⟨q, Tables.mem_matching.2 ⟨endpoint, enabled, subscribed⟩, rfl⟩
  have owed₁ : Owed e q.id s₁ :=
    .of_ingest (group_inv reach) (provenance reach) none matching (step_transition accepted) new committed
  have reach₁ : Reachable cfg s₁ := reach.any.next trivial accepted
  have reach' : Reachable cfg s := run.any.reachable reach₁
  have owed : Owed e q.id s :=
    run.invariant_from (fun _ _ _ reach h quiet hs =>
      h.step (group_inv reach) (provenance reach) (step_transition hs) quiet) reach₁ owed₁
  exact owed.settled reach' ((stuck_iff_spent reach' capacity).1 still) served

/-- The first delivery is answered with 500, the retry with 200. -/
theorem accepted_event_settled_after_retry : ∃ s : State, Lts.Stuck (State.step {}) (Busy {}) s ∧
    (s.store.db.HasDlq (.ofNat 2) (.ofNat 1) ∨ s.store.Answered (.ofNat 2) (.ofNat 1)) := by
  obtain ⟨s₀, run₀, h⟩ := Lts.Run.of_check_any (C := fun _ a => a.unattended) (s := initial)
    (p := fun s₀ => s₀.store.db.endpoints.any fun q =>
      decide (q.enabled = true ∧ "order.created" ∈ q.eventTypes ∧ q.id = .ofNat 1 ∧ .ofNat 2 ∉ s₀.store.db.eventIds) &&
      (s₀.step {} (.ingest (.ofNat 2) (.ofNat 3) sampleEvent)).any fun s₁ =>
        decide (.ofNat 2 ∈ s₁.store.db.eventIds) &&
        (Lts.check (State.step {}) (fun _ a => a.unattended && a.spares q.id) s₁
          ([.loop .spawn, .relay 0 .select, .relay 0 (.publish 0 0), .relay 0 .commit, .loop (.assign 0 0)] ++
            handOut 0 [sampleRecord 0 (.fanOut (.ofNat 2))] ++ [.task 0 .resolve] ++ attempt 0 500 ++
            [.task 0 (.schedule 5), .finish 0 .returned, .loop (.commitApply 0), .scheduler 0 (.poll 5),
              .scheduler 0 (.publish 0 1), .scheduler 0 .cancel] ++
            handOut 0 [sampleRecord 1 (.retry (.ofNat 2) (.ofNat 1) 1)] ++ [.task 0 .resolve] ++ attempt 0 200 ++
            [.finish 0 .returned, .loop (.commitApply 0)])).any fun s => decide (s.Spent ∧ s.Served))
    (show (Lts.check (State.step {}) _ _ [.createEndpoint (.ofNat 1) sampleEndpoint]).any _ = true by decide +kernel)
  simp only [Option.any_eq_true, List.any_eq_true, Bool.and_eq_true, decide_eq_true_eq] at h
  obtain ⟨q, hq, ⟨enabled, subscribed, hp, new⟩, s₁, accepted, committed, s, run, spent, served⟩ := h
  have run := Lts.Run.of_check run
  have reach : Reachable {} s := run.any.reachable ((show Reachable {} s₀ from ⟨_, run₀.any⟩).next trivial accepted)
  have still := (stuck_iff_spent reach (by decide)).2 spent
  exact ⟨s, still, hp ▸ accepted_event_settled (by decide) ⟨_, run₀⟩ hq enabled subscribed accepted new committed run
    still served⟩

end Still

end HookRelay
