import HookRelay.Recovery
import HookRelay.SequentialDelivery
import HookRelay.StoredStatus

/-!
# Everything can be brought to an end

No state that the deployment reaches is stuck: after a recovery a worker can process the records of the topic one by
one, and when it is through nothing is left to do. Where the client can send the type of every stored event, whoever a
message asked for a delivery to has then answered with success. What happened before (crashes, redeliveries, commits
that were lost, requests that were given up) is no hindrance.
-/

namespace HookRelay

/-! ## One record -/

section Calls

variable {cfg : Settings} {r : Record Message} {st st' st'' : Store} {d : Delivery}

/-- Some steps of the call, in which the endpoints accept what they are sent. -/
abbrev Accepts (cfg : Settings) (r : Record Message) (s s' : Store × Call) : Prop :=
  Lts.Reachable (Call.next cfg r) (fun s a => s.2.accepts a = true) s s'

theorem Accepts.one {s s' : Store × Call} {a : TaskAction} (accepted : s.2.accepts a = true)
    (hs : s.2.step cfg s.1 r a = some s') : Accepts cfg r s s' :=
  Lts.Reachable.single accepted hs

/-- No request is open, and who has a success row has answered with success. -/
structure Store.Settling (st : Store) : Prop where
  closed : ∀ q ∈ st.requests, q.isOpen = false
  answered : ∀ e p, st.db.hasSuccess e p = true → st.Answered e p

/-- Attempts and POSTs were added. -/
structure Store.Adds (st st' : Store) : Prop where
  redis : st'.redis = st.redis
  requests : st'.requests = st.requests
  endpoints : st'.db.endpoints = st.db.endpoints
  events : st'.db.events = st.db.events
  outbox : st'.db.outbox = st.db.outbox
  history : ∀ x ∈ st.history, x ∈ st'.history

theorem Store.Adds.refl (st : Store) : st.Adds st := ⟨rfl, rfl, rfl, rfl, rfl, fun _ hx => hx⟩

theorem Store.Adds.trans (h : st.Adds st') (h' : st'.Adds st'') : st.Adds st'' where
  redis := h'.redis.trans h.redis
  requests := h'.requests.trans h.requests
  endpoints := h'.endpoints.trans h.endpoints
  events := h'.events.trans h.events
  outbox := h'.outbox.trans h.outbox
  history x hx := h'.history x (h.history x hx)

theorem Store.Adds.answered (h : st.Adds st') {e p : UUID} (answered : st.Answered e p) : st'.Answered e p :=
  let ⟨r, post, posted, rest⟩ := answered
  ⟨r, post, h.history _ posted, rest⟩

theorem Store.Settling.unlocked (h : st.Settling) (e : UUID) : st.eventLocked e = false := by
  rw [Store.eventLocked, List.any_eq_false]
  intro q hq
  simp [Request.locksEvent, h.closed q hq]

/-- The success of a POST that was made is recorded, or its number is taken. -/
theorem record_success {result : HttpResult} (settling : st.Settling) (stage : d.stage = .recording result)
    (success : result.succeeded = true) (stored : result.storable = true) (event : d.event.id ∈ st.db.eventIds)
    (endpoint : d.endpoint.id ∈ st.db.endpointIds) (answered : st.Answered d.event.id d.endpoint.id) :
    ∃ st', d.record st r = some (st', d.next) ∧ st.Adds st' ∧ st'.Settling := by
  cases taken : st.db.conflictsAttempt (d.row result) with
  | true =>
    have kept : st.db.insertAttempt (d.row result) = some st.db := by
      rw [Database.insertAttempt, Database.exec_eq_some]
      exact Tables.insertAttempt_taken stored taken
    refine ⟨st, ?_, .refl st, settling⟩
    simp only [Delivery.record, stage, taken, success, kept, Bool.not_true, Bool.false_and, Bool.false_eq_true,
      if_false, if_true, Option.bind_eq_bind, Option.bind_some]
  | false =>
    have inserted : st.db.toTables.insertAttempt (d.row result) =
        some { st.db.toTables with attempts := st.db.attempts ++ [d.row result] } :=
      Tables.insertAttempt_free stored taken event endpoint
    let db : Database := ⟨_, st.db.valid.insertAttempt inserted⟩
    have kept : st.db.insertAttempt (d.row result) = some db := Database.exec_eq_some.2 inserted
    have adds : st.Adds ({ st with db }.log (.recorded r (d.row result))) :=
      ⟨rfl, rfl, rfl, rfl, rfl, fun x hx => List.mem_cons_of_mem _ hx⟩
    refine ⟨{ st with db }.log (.recorded r (d.row result)), ?_, adds, settling.closed, fun e p prior => ?_⟩
    · simp only [Delivery.record, stage, taken, success, kept, settling.unlocked, Bool.not_false, Bool.true_and,
        Bool.false_eq_true, if_false, if_true, Option.bind_eq_bind, Option.bind_some]
    · obtain ⟨a, ha, rfl, rfl, status⟩ := Tables.hasSuccess_iff.1 prior
      rcases List.mem_append.1 (show a ∈ st.db.attempts ++ [d.row result] from ha) with old | new
      · exact adds.answered (settling.answered _ _ (Tables.hasSuccess_iff.2 ⟨a, old, rfl, rfl, status⟩))
      · rw [List.mem_singleton.1 new]
        exact adds.answered answered

variable (cfg r) in
/-- A delivery of a deliverable event ends with an answer of success, now or before. -/
theorem deliver_accepted (settling : st.Settling) (stage : d.stage = .checking)
    (deliverable : HeaderValue d.event.eventType) (event : d.event.id ∈ st.db.eventIds)
    (endpoint : d.endpoint.id ∈ st.db.endpointIds) :
    ∃ st', Accepts cfg r (st, .delivering d) (st', d.next) ∧ st.Adds st' ∧ st'.Settling ∧
      st'.Answered d.event.id d.endpoint.id := by
  cases prior : st.db.hasSuccess d.event.id d.endpoint.id with
  | true =>
    have skipped : d.select st = some (st, d.next) := by
      simp only [Delivery.select, stage, prior, if_true]
    exact ⟨st, Accepts.one (a := .select) rfl skipped, .refl st, settling, settling.answered _ _ prior⟩
  | false =>
    have selected : d.select st = some (st, d.goto .posting) := by
      simp only [Delivery.select, stage, prior, if_true, Bool.false_eq_true, if_false]
    let result : HttpResult := .response 200 []
    let st₁ := st.log (.posted r (d.post result))
    have posted : ({ d with stage := .posting } : Delivery).request st r result =
        some (st₁, d.goto (.recording result)) := if_pos rfl
    have answered : st₁.Answered d.event.id d.endpoint.id :=
      ⟨r, d.post result, List.mem_cons_self, rfl, rfl, rfl⟩
    have adds : st.Adds st₁ := ⟨rfl, rfl, rfl, rfl, rfl, fun x hx => List.mem_cons_of_mem _ hx⟩
    have settling₁ : st₁.Settling := ⟨settling.closed, fun e p prior => adds.answered (settling.answered e p prior)⟩
    obtain ⟨st', recorded, adds', settling'⟩ := record_success (r := r) (d := { d with stage := .recording result })
      settling₁ rfl rfl rfl event endpoint answered
    have first : Accepts cfg r (st, .delivering d) (st, d.goto .posting) := Accepts.one (a := .select) rfl selected
    have accepted : (d.goto .posting).accepts (.post result) = true := decide_eq_true deliverable
    have second : Accepts cfg r (st, d.goto .posting) (st₁, d.goto (.recording result)) :=
      Accepts.one (a := .post result) accepted posted
    have third : Accepts cfg r (st₁, d.goto (.recording result)) (st', d.next) :=
      Accepts.one (a := .record) rfl recorded
    exact ⟨st', first.trans (second.trans third), adds.trans adds', settling', adds'.answered answered⟩

variable (cfg r) in
/-- The loop over the targets comes to its end, and every target has answered with success. -/
theorem deliverNext_accepted {event : Event} {n : Nat} (deliverable : HeaderValue event.eventType)
    (ps : List Endpoint) : ∀ st : Store, st.Settling → event.id ∈ st.db.eventIds →
    (∀ q ∈ ps, q.id ∈ st.db.endpointIds) → ∃ st', Accepts cfg r (st, deliverNext event n ps) (st', .finished) ∧
      st.Adds st' ∧ st'.Settling ∧ ∀ q ∈ ps, st'.Answered event.id q.id := by
  induction ps with
  | nil =>
    intro st settling _ _
    exact ⟨st, .refl _, .refl st, settling, fun q hq => by cases hq⟩
  | cons q ps ih =>
    intro st settling known exist
    obtain ⟨st₁, first, adds, settling₁, answered⟩ := deliver_accepted cfg r
      (d := ⟨event, n, q, .checking, ps⟩) settling rfl deliverable known (exist q List.mem_cons_self)
    obtain ⟨st', rest, adds', settling', others⟩ := ih st₁ settling₁
      (by rwa [Tables.eventIds, adds.events]) fun q hq => by
        rw [Tables.endpointIds, adds.endpoints]
        exact exist q (List.mem_cons_of_mem _ hq)
    refine ⟨st', first.trans rest, adds.trans adds', settling', fun q' hq => ?_⟩
    rcases List.mem_cons.1 hq with rfl | hq
    · exact adds'.answered answered
    · exact others q' hq

variable (cfg r) in
/-- `_process_record` comes to its end, and every target of the message has answered with success. -/
theorem process_accepted (settling : st.Settling)
    (deliverable : ∀ event ∈ st.db.events, HeaderValue event.eventType) :
    ∃ st', Accepts cfg r (st, .resolving) (st', .finished) ∧ st.Adds st' ∧ st'.Settling ∧
      ∀ event, st.db.getEvent r.value.eventId = some event →
        ∀ q ∈ targets st.db.toTables event r.value, st'.Answered r.value.eventId q.id := by
  have resolved : Accepts cfg r (st, .resolving) (st, resolveTargets st.db.toTables r.value) :=
    Accepts.one (a := .resolve) rfl rfl
  cases found : st.db.getEvent r.value.eventId with
  | none =>
    refine ⟨st, ?_, .refl st, settling, fun event impossible => by cases impossible⟩
    rwa [resolveTargets, found] at resolved
  | some event =>
    rw [resolveTargets, found] at resolved
    obtain ⟨stored, same⟩ := Tables.getEvent_some found
    obtain ⟨st', rest, adds, settling', answered⟩ := deliverNext_accepted cfg r (n := r.value.attempt)
      (deliverable event stored) (targets st.db.toTables event r.value) st settling
      (Tables.mem_eventIds.2 ⟨event, stored, rfl⟩) fun q hq => Tables.mem_endpointIds.2 ⟨q, targets_exist hq, rfl⟩
    refine ⟨st', resolved.trans rest, adds, settling', fun event' here q hq => ?_⟩
    cases here
    exact same ▸ answered q hq

end Calls

section Records

variable {cfg : Settings} {s s' : State} {w : Nat} {r : Record Message}

/-- The steps of the only call there is are steps of the deployment. -/
theorem Accepts.recovers {x x' : Store × Call} (run : Accepts cfg r x x') :
    Recovers cfg { s with store := x.1, group := { s.group with tasks := [⟨w, r, x.2⟩] } }
      { s with store := x'.1, group := { s.group with tasks := [⟨w, r, x'.2⟩] } } := by
  obtain ⟨as, run⟩ := run
  induction run with
  | nil => exact .refl _
  | @cons x x₁ x' a as accepted hs _ ih =>
    have step : State.step cfg { s with store := x.1, group := { s.group with tasks := [⟨w, r, x.2⟩] } } (.task 0 a) =
        some { s with store := x₁.1, group := { s.group with tasks := [⟨w, r, x₁.2⟩] } } := by
      have moved : x.2.step cfg x.1 r a = some (x₁.1, x₁.2) := hs
      simp [State.step, State.taskStep, ConsumerGroup.advance, moved]
    exact (Recovers.one (a := .task 0 a) (by simpa [State.recovers, State.call] using accepted) step).trans ih

/-- A single offset that is started and done is committed. -/
theorem PartitionWatermark.done_start {m : PartitionWatermark} {o : Int} (none : m.inFlight = ∅)
    (seen : m.lastSeen < o) (committed : m.lastCommitted < o) :
    ∃ m', (m.start o).done o = (m', some o) ∧ m'.inFlight = ∅ ∧ m'.lastSeen = o ∧ m'.lastCommitted = o := by
  have alone : ((m.start o).discard o).inFlight = ∅ := by
    simp [PartitionWatermark.discard, none]
  have last : (m.start o).lastSeen = o := by
    rw [PartitionWatermark.start_lastSeen]
    omega
  have candidate : ((m.start o).discard o).candidate = o := by
    rw [PartitionWatermark.candidate, dif_neg (by rw [alone]; exact Finset.not_nonempty_empty)]
    exact last
  have advances : o > ((m.start o).discard o).lastCommitted := committed
  refine ⟨{ (m.start o).discard o with lastCommitted := o }, ?_, alone, last, rfl⟩
  simp only [PartitionWatermark.done, candidate, if_pos advances]

/-- A worker that has committed the only offset it had is ready again. -/
theorem Worker.Ready.commit {worker worker' : Worker Message} {committed : Nat → Nat} {m₀ m : PartitionWatermark}
    {p o : Nat} (ready : worker.Ready committed) (fatal : worker'.fatal = false) (batch : worker'.batch = [])
    (acquired : worker'.acquired = 1) (started : worker'.watermarks = Function.update worker.watermarks p m₀)
    (inFlight : m.inFlight = ∅) (seen : m.lastSeen = o) (last : m.lastCommitted = o) :
    (worker'.release.setWatermark p m).Ready (Function.update committed p (o + 1)) := by
  have watermarks : (worker'.release.setWatermark p m).watermarks = Function.update worker.watermarks p m := by
    rw [Worker.setWatermark, Worker.release_watermarks, started, Function.update_idem]
  have released : (worker'.release.setWatermark p m).acquired = 0 := by
    show worker'.acquired - 1 = 0
    rw [acquired, Int.sub_self]
  refine ⟨fatal, batch, released, fun p' => ?_, fun p' => ?_, fun p' => ?_⟩ <;> rw [watermarks] <;>
    by_cases here : p' = p
  · rw [here, Function.update_self, inFlight]
  · rw [Function.update_of_ne here]
    exact ready.inFlight p'
  · rw [here, Function.update_self, Function.update_self, seen]
    omega
  · rw [Function.update_of_ne here, Function.update_of_ne here]
    exact ready.lastSeen p'
  · rw [here, Function.update_self, Function.update_self, last]
    omega
  · rw [Function.update_of_ne here, Function.update_of_ne here]
    exact ready.lastCommitted p'

/-- The endpoints that match are targets of a message that concerns them. -/
theorem mem_targets_of_concerns {t : Tables} {m : Message} {event : Event} {q : Endpoint}
    (concerns : m.Concerns event.id q.id) (v : t.Valid) (hq : q ∈ t.matching event.eventType) :
    q ∈ targets t event m := by
  rcases concerns.2 with none | target
  · exact mem_targets.2 (.inr ⟨none, hq⟩)
  · exact mem_targets.2 (.inl ⟨q.id, target, v.getEndpoint_eq (Tables.mem_matching.1 hq).1,
      (Tables.mem_matching.1 hq).2.1⟩)

/-- The next record of a partition, and it is not committed. -/
structure State.Next (s : State) (r : Record Message) : Prop where
  present : r ∈ s.group.log
  behind : s.group.committed r.partition ≤ r.offset
  first : ∀ r' ∈ s.group.log, r'.partition = r.partition → r'.offset < r.offset →
    r'.offset < s.group.committed r.partition

/-- The worker is given the partition, fetches the record and starts a call on it. -/
theorem starts {worker : Worker Message} (rest : s.Resting w) (found : s.group.workers[w]? = some worker)
    (ready : worker.Ready s.group.committed) (capacity : 0 < cfg.workerConcurrency) (next : s.Next r) :
    ∃ worker' : Worker Message, worker'.fatal = false ∧ worker'.batch = [] ∧ worker'.acquired = 1 ∧
      worker'.watermarks = Function.update worker.watermarks r.partition
        ((worker.watermarks r.partition).start r.offset) ∧
      Recovers cfg s { s with group := { s.group with
        workers := s.group.workers.set w worker', tasks := [⟨w, r, .resolving⟩] } } := by
  have alive : w < s.group.workers.length := (List.getElem?_eq_some_iff.1 found).1
  let owner : Worker Message := worker.seek r.partition (some (s.group.committed r.partition))
  let fetched : Worker Message := { owner.seek r.partition (some (r.offset + 1)) with batch := [r] }
  let started : Worker Message :=
    { fetched.acquire.setWatermark r.partition ((fetched.watermarks r.partition).start r.offset) with batch := [] }
  let with_worker (worker : Worker Message) : State :=
    { s with group := { s.group with workers := s.group.workers.set w worker } }
  have assigned : s.step cfg (.loop (.assign w r.partition)) = some (with_worker owner) := by
    simp [State.step, State.loopStep, ConsumerGroup.loopStep, ConsumerGroup.assign, found, owner, with_worker]
  have got : (with_worker owner).step cfg (.loop (.getmany w [r])) = some (with_worker fetched) := by
    have here : (with_worker owner).group.workers[w]? = some owner := List.getElem?_set_self alive
    have few : 1 ≤ cfg.workerConcurrency * 4 := by omega
    have idle : owner.fatal = false ∧ owner.batch = [] := ⟨ready.fatal, ready.batch⟩
    have position : owner.positions r.partition = some (s.group.committed r.partition) := Function.update_self ..
    have fetch : ConsumerGroup.fetch (with_worker owner).group.log owner r = some fetched := by
      simp only [ConsumerGroup.fetch, position]
      rw [if_pos ⟨next.present, next.behind, next.first⟩, idle.2]
      rfl
    simp only [State.step, State.loopStep, ConsumerGroup.loopStep, ConsumerGroup.getmany, here, idle, few,
      ConsumerGroup.fetchAll, fetch, Option.bind_eq_bind, Option.bind_some, List.length_singleton, and_self, if_true]
    simp only [with_worker, List.set_set]
  have begun : (with_worker fetched).step cfg (.loop (.start w)) = some { s with group := { s.group with
      workers := s.group.workers.set w started, tasks := [⟨w, r, .resolving⟩] } } := by
    have here : (with_worker fetched).group.workers[w]? = some fetched := List.getElem?_set_self alive
    have free : 0 < fetched.permits cfg.workerConcurrency := by
      have idle : fetched.acquired = 0 := ready.acquired
      rw [Worker.permits, idle]
      omega
    simp only [State.step, State.loopStep, ConsumerGroup.loopStep, ConsumerGroup.start, here,
      show fetched.batch = [r] from rfl, free, if_true, Option.bind_eq_bind, Option.bind_some]
    simp only [with_worker, List.set_set, show s.group.tasks = [] from rest.tasks, List.nil_append]
    rfl
  have taken : started.acquired = 1 := by
    show worker.acquired + 1 = 1
    rw [ready.acquired, Int.zero_add]
  exact ⟨started, ready.fatal, rfl, taken, rfl, (Recovers.one rfl assigned).trans
    ((Recovers.one rfl got).trans (Recovers.one rfl begun))⟩

/-- The call ends, and its offset is committed. -/
theorem commits {worker : Worker Message} {m : PartitionWatermark} (tasks : s.group.tasks = [⟨w, r, .finished⟩])
    (commits : s.group.commits = []) (found : s.group.workers[w]? = some worker)
    (done : (worker.watermarks r.partition).done r.offset = (m, some (r.offset : Int))) :
    Recovers cfg s { s with group := { s.group with
      workers := s.group.workers.set w (worker.release.setWatermark r.partition m), tasks := []
      processed := s.group.processed ++ [r]
      committed := Function.update s.group.committed r.partition (r.offset + 1) } } := by
  have position : ((r.offset : Int) + 1).toNat = r.offset + 1 := by omega
  have finished : s.step cfg (.finish 0 .returned) = some { s with group := { s.group with
      workers := s.group.workers.set w (worker.release.setWatermark r.partition m), tasks := []
      processed := s.group.processed ++ [r], commits := [(r.partition, r.offset + 1)] } } := by
    simp [State.step, State.finish, ConsumerGroup.finish, tasks, found, Outcome.advance, done, commits, position]
  have applied : State.step cfg { s with group := { s.group with
      workers := s.group.workers.set w (worker.release.setWatermark r.partition m), tasks := []
      processed := s.group.processed ++ [r], commits := [(r.partition, r.offset + 1)] } } (.loop (.commitApply 0)) =
        some { s with group := { s.group with
          workers := s.group.workers.set w (worker.release.setWatermark r.partition m), tasks := []
          processed := s.group.processed ++ [r]
          committed := Function.update s.group.committed r.partition (r.offset + 1) } } := by
    simp [State.step, State.loopStep, ConsumerGroup.loopStep, ConsumerGroup.commitApply, commits]
  exact (Recovers.one rfl finished).trans (Recovers.one rfl applied)

/-- The next record of a partition is processed and committed. -/
theorem consume_record (reach : Reachable cfg s) (rest : s.Resting w) (capacity : 0 < cfg.workerConcurrency)
    (sendable : s.Sendable) (next : s.Next r) :
    ∃ s', Recovers cfg s s' ∧ s'.Resting w ∧ Forwards s s' ∧ s'.store.db.outbox = s.store.db.outbox ∧
      s'.store.redis = s.store.redis ∧ s'.group.log = s.group.log ∧
      s'.group.committed = Function.update s.group.committed r.partition (r.offset + 1) := by
  obtain ⟨worker, found, ready⟩ := rest.worker
  have alive : w < s.group.workers.length := (List.getElem?_eq_some_iff.1 found).1
  obtain ⟨worker₁, calm, empty, taken, watermarks, started⟩ := starts rest found ready capacity next
  have settling : s.store.Settling := ⟨rest.requests, fun e p => (provenance reach).of_hasSuccess⟩
  obtain ⟨st, called, adds, settling', answered⟩ := process_accepted cfg r settling sendable
  have behind : (s.group.committed r.partition : Int) ≤ r.offset := Int.ofNat_le.2 next.behind
  obtain ⟨m, done, none, seen, last⟩ := PartitionWatermark.done_start (o := (r.offset : Int))
    (ready.inFlight r.partition) ((ready.lastSeen r.partition).trans_le behind)
    ((ready.lastCommitted r.partition).trans_le behind)
  let running : State := { s with group := { s.group with workers := s.group.workers.set w worker₁ } }
  let ended : State := { running with store := st, group := { running.group with tasks := [⟨w, r, .finished⟩] } }
  have processed : Recovers cfg { running with group := { running.group with tasks := [⟨w, r, .resolving⟩] } } ended :=
    called.recovers (s := running)
  have committed : Recovers cfg ended _ := commits rfl rest.commits
    (List.getElem?_set_self alive : _ = some worker₁) (by rw [watermarks, Function.update_self]; exact done)
  refine ⟨_, started.trans (processed.trans committed), ?_, ?_, adds.outbox, adds.redis, rfl, rfl⟩
  · refine ⟨⟨worker₁.release.setWatermark r.partition m, ?_, ready.commit calm empty taken watermarks none seen last⟩,
      rest.scheduler, rest.relay, rest.relays, rfl, rest.commits, settling'.closed⟩
    exact List.getElem?_set_self (by rwa [List.length_set])
  · refine ⟨adds.endpoints, adds.events, adds.history, fun e p matched asked => ?_⟩
    rcases asked with ⟨o, ho, he⟩ | ⟨n, held⟩ | ⟨r', hr', concerns, waits⟩
    · refine .inl (.inl ⟨o, ?_, he⟩)
      show o ∈ st.db.outbox
      rwa [adds.outbox]
    · refine .inl (.inr (.inl ⟨n, ?_⟩))
      show st.redis.Holds ⟨e, p, n⟩
      rwa [adds.redis]
    · by_cases here : r'.partition = r.partition ∧ r'.offset ≤ r.offset
      · -- It is the record itself: those before it are committed.
        have same : r' = r := by
          refine (group_inv reach).offsets r' hr' r next.present here.1 ?_
          by_contra ne
          have before := next.first r' hr' here.1 (by omega)
          rw [here.1] at waits
          omega
        subst same
        obtain ⟨event, stored, rfl, q, hq, rfl⟩ := matched
        have known := concerns.1 ▸ s.store.db.valid.getEvent_eq stored
        exact .inr (concerns.1 ▸ answered event known q (mem_targets_of_concerns concerns s.store.db.valid hq))
      · refine .inl (.inr (.inr ⟨r', hr', concerns, ?_⟩))
        show Function.update s.group.committed r.partition (r.offset + 1) r'.partition ≤ r'.offset
        by_cases there : r'.partition = r.partition
        · rw [there, Function.update_self]
          omega
        · rwa [Function.update_of_ne there]

/-- If a record is not committed, one is the next of its partition. -/
theorem exists_next (hr : r ∈ s.group.log) (behind : s.group.committed r.partition ≤ r.offset) : ∃ r, s.Next r := by
  obtain ⟨r', hr', here, behind, first⟩ := ConsumerGroup.exists_first r.offset r hr rfl rfl behind
  rw [← here] at behind first
  exact ⟨r', hr', behind, first⟩

/-- The records that are not committed. -/
def State.uncommitted (s : State) : Finset (Record Message) :=
  s.group.log.toFinset.filter fun r => s.group.committed r.partition ≤ r.offset

theorem drain_topic (reach : Reachable cfg s) (rest : s.Resting w) (capacity : 0 < cfg.workerConcurrency)
    (sendable : s.Sendable) :
    ∃ s', Recovers cfg s s' ∧ s'.Resting w ∧ Forwards s s' ∧ s'.store.db.outbox = s.store.db.outbox ∧
      s'.store.redis = s.store.redis ∧ ∀ r ∈ s'.group.log, r.offset < s'.group.committed r.partition := by
  have consume : ∀ s₁, (Reachable cfg s₁ ∧ s₁.Resting w ∧ Forwards s s₁ ∧ s₁.store.db.outbox = s.store.db.outbox ∧
        s₁.store.redis = s.store.redis) → ¬ (∀ r ∈ s₁.group.log, r.offset < s₁.group.committed r.partition) →
      ∃ s₂, Recovers cfg s₁ s₂ ∧ (Reachable cfg s₂ ∧ s₂.Resting w ∧ Forwards s s₂ ∧
        s₂.store.db.outbox = s.store.db.outbox ∧ s₂.store.redis = s.store.redis) ∧
        s₂.uncommitted.card < s₁.uncommitted.card := by
    rintro s₁ ⟨reach, rest, before, outbox, redis⟩ left
    simp only [not_forall, not_lt] at left
    obtain ⟨r₀, hr₀, waits⟩ := left
    obtain ⟨r, next⟩ := exists_next hr₀ waits
    obtain ⟨s₂, processed, rest, after, outbox', redis', log, committed⟩ :=
      consume_record reach rest capacity (before.sendable sendable) next
    have fewer : ∀ r', r' ∈ s₂.uncommitted ↔ r' ∈ s₁.group.log ∧
        Function.update s₁.group.committed r.partition (r.offset + 1) r'.partition ≤ r'.offset := by
      intro r'
      rw [State.uncommitted, Finset.mem_filter, List.mem_toFinset, log, committed]
    refine ⟨s₂, processed, ⟨reach.trans processed.any, rest, before.trans after, outbox'.trans outbox,
      redis'.trans redis⟩, Finset.card_lt_card (Finset.ssubset_iff_subset_ne.2 ⟨fun r' hr => ?_, fun same => ?_⟩)⟩
    · obtain ⟨hr, waits⟩ := (fewer r').1 hr
      refine Finset.mem_filter.2 ⟨List.mem_toFinset.2 hr, ?_⟩
      by_cases here : r'.partition = r.partition
      · have behind := next.behind
        rw [here, Function.update_self] at waits
        rw [here]
        omega
      · rwa [Function.update_of_ne here] at waits
    · have here : r ∈ s₂.uncommitted :=
        same ▸ Finset.mem_filter.2 ⟨List.mem_toFinset.2 next.present, next.behind⟩
      have impossible := ((fewer r).1 here).2
      rw [Function.update_self] at impossible
      omega
  obtain ⟨s', drained, ⟨-, rest, forwards, outbox, redis⟩, done⟩ :=
    Lts.Reachable.descend consume ⟨reach, rest, .refl s, rfl, rfl⟩
  exact ⟨s', drained, rest, forwards, outbox, redis, done⟩

end Records

end HookRelay
