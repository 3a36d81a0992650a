import HookRelay.Capacity
import HookRelay.Deliverability
import HookRelay.NoLoss
import HookRelay.ScheduledRetry

/-!
# How the deployment recovers

Wherever a deployment was interrupted, it can come to rest: the requests that are open are rolled back, every worker
starts anew, and what was in transit to the broker is lost. From there the relay empties the outbox and the scheduler
empties Redis, into the topic. No duty to deliver is lost on the way.
-/

namespace HookRelay

/-- The POST of the call can be made, and its endpoint accepts what it is sent: no request is built for an event
whose type is no header value. -/
def Call.accepts (c : Call) : TaskAction → Bool
  | .post result => result.succeeded && c.delivery.any fun d => decide (HeaderValue d.event.eventType)
  | _ => true

/-- What the workers do by themselves, with endpoints that accept what they are sent. Of the requests there is only
the rollback of those that are open. -/
def State.recovers (s : State) : Action → Bool
  | .task i a => (s.call i).any (·.accepts a)
  | .finish _ .returned | .relay _ _ | .scheduler _ _ | .loop _ | .request _ .abort => true
  | _ => false

/-- Some run in which nothing but the workers acts. -/
abbrev Recovers (cfg : Settings) (s s' : State) : Prop :=
  Lts.Reachable (State.step cfg) (fun s a => s.recovers a = true) s s'

theorem Recovers.one {cfg : Settings} {s s' : State} {a : Action} (alone : s.recovers a = true)
    (hs : s.step cfg a = some s') : Recovers cfg s s' :=
  Lts.Reachable.single alone hs

/-- Nothing of the worker is under way, and it may commit whatever it is going to do. -/
structure Worker.Ready {V : Type} (committed : Nat → Nat) (worker : Worker V) : Prop where
  fatal : worker.fatal = false
  batch : worker.batch = []
  acquired : worker.acquired = 0
  inFlight : ∀ p, (worker.watermarks p).inFlight = ∅
  lastSeen : ∀ p, (worker.watermarks p).lastSeen < committed p
  lastCommitted : ∀ p, (worker.watermarks p).lastCommitted < committed p

/-- Nothing is under way, and process `w` is ready for everything. -/
structure State.Resting (w : Nat) (s : State) : Prop where
  worker : ∃ worker, s.group.workers[w]? = some worker ∧ worker.Ready s.group.committed
  scheduler : w < s.schedulers.length ∧ s.schedulers[w]? = some .idle
  relay : w < s.relays.length
  relays : ∀ relay ∈ s.relays, relay = .idle
  tasks : s.group.tasks = []
  commits : s.group.commits = []
  requests : ∀ q ∈ s.store.requests, q.isOpen = false

/-- A message that asks for a delivery of the event to the endpoint is in the outbox, in Redis, or in the topic
behind the committed position. -/
def State.Asked (s : State) (e p : UUID) : Prop :=
  (∃ o ∈ s.store.db.outbox, o.eventId = e) ∨ (∃ n, s.store.redis.Holds ⟨e, p, n⟩) ∨
    ∃ r ∈ s.group.log, r.value.Concerns e p ∧ s.group.committed r.partition ≤ r.offset

/-- A request can be built for every stored event. -/
def State.Sendable (s : State) : Prop := ∀ event ∈ s.store.db.events, HeaderValue event.eventType

/-- What was asked for is still asked for, or the endpoint has answered with success. -/
structure Forwards (s s' : State) : Prop where
  endpoints : s'.store.db.endpoints = s.store.db.endpoints
  events : s'.store.db.events = s.store.db.events
  history : ∀ x ∈ s.store.history, x ∈ s'.store.history
  asked : ∀ e p, s.store.db.Matches e p → s.Asked e p → s'.Asked e p ∨ s'.store.Answered e p

namespace Forwards

variable {s s' s'' : State}

theorem pair (h : Forwards s s') {e p : UUID} (matched : s.store.db.Matches e p) : s'.store.db.Matches e p := by
  obtain ⟨event, he, hid, q, hq, hp⟩ := matched
  refine ⟨event, h.events ▸ he, hid, q, ?_, hp⟩
  rw [Tables.matching] at hq ⊢
  rwa [h.endpoints]

theorem answered (h : Forwards s s') {e p : UUID} (answered : s.store.Answered e p) : s'.store.Answered e p :=
  let ⟨r, post, posted, rest⟩ := answered
  ⟨r, post, h.history _ posted, rest⟩

theorem sendable (h : Forwards s s') (sendable : s.Sendable) : s'.Sendable := by
  rwa [State.Sendable, h.events]

theorem refl (s : State) : Forwards s s := ⟨rfl, rfl, fun _ hx => hx, fun _ _ _ h => .inl h⟩

theorem trans (h : Forwards s s') (h' : Forwards s' s'') : Forwards s s'' where
  endpoints := h'.endpoints.trans h.endpoints
  events := h'.events.trans h.events
  history x hx := h'.history x (h.history x hx)
  asked e p matched asked := by
    rcases h.asked e p matched asked with asked | answered
    · exact h'.asked e p (h.pair matched) asked
    · exact .inr (h'.answered answered)

/-- Nothing that is stored has changed. -/
theorem of_same (db : s'.store.db = s.store.db) (redis : s'.store.redis = s.store.redis)
    (history : s'.store.history = s.store.history) (log : s'.group.log = s.group.log)
    (committed : s'.group.committed = s.group.committed) : Forwards s s' where
  endpoints := by rw [db]
  events := by rw [db]
  history x hx := history ▸ hx
  asked e p _ asked := .inl (by rwa [State.Asked, db, redis, log, committed])

end Forwards

/-! ## Coming to rest -/

section Rest

variable {cfg : Settings} {s s' : State}

/-- Every process has a delivery loop, a scheduler and a relay. -/
structure State.Staffed (s : State) : Prop where
  schedulers : s.schedulers.length = s.group.workers.length
  relays : s.relays.length = s.group.workers.length

theorem State.Staffed.of_lengths (h : s.Staffed) (workers : s'.group.workers.length = s.group.workers.length)
    (schedulers : s'.schedulers.length = s.schedulers.length) (relays : s'.relays.length = s.relays.length) :
    s'.Staffed :=
  ⟨(schedulers.trans h.schedulers).trans workers.symm, (relays.trans h.relays).trans workers.symm⟩

namespace ConsumerGroup

variable {V τ : Type} [DecidableEq V] {concurrency : Nat} {init : V → τ} {g g' : ConsumerGroup V τ}

theorem loopStep_workers {a : LoopAction V} (hs : g.loopStep concurrency init a = some g') :
    a = .spawn ∨ g'.workers.length = g.workers.length := by
  cases a <;> simp only [loopStep, assign, revoke, getmany, start, commitApply, commitDrop, crash, Option.bind_eq_bind,
    Option.bind_eq_some_iff, Option.ite_none_right_eq_some, Option.some.injEq] at hs
  case spawn => exact .inl rfl
  case assign | revoke =>
    obtain ⟨_, -, rfl⟩ := hs
    exact .inr (List.length_set ..)
  case getmany =>
    obtain ⟨_, -, -, _, -, rfl⟩ := hs
    exact .inr (List.length_set ..)
  case start =>
    obtain ⟨_, -, hs⟩ := hs
    split at hs
    · cases hs
    · obtain ⟨-, same⟩ := Option.ite_none_right_eq_some.1 hs
      cases same
      exact .inr (List.length_set ..)
  case commitApply =>
    obtain ⟨_, -, rfl⟩ := hs
    exact .inr rfl
  case commitDrop =>
    obtain ⟨-, rfl⟩ := hs
    exact .inr rfl
  case crash =>
    obtain ⟨-, rfl⟩ := hs
    exact .inr (List.length_set ..)

omit [DecidableEq V] in
theorem finish_workers {i : Nat} {o : Outcome} (hs : g.finish i o = some g') :
    g'.workers.length = g.workers.length := by
  simp only [finish, Option.bind_eq_bind, Option.bind_eq_some_iff] at hs
  obtain ⟨t, -, worker, -, hs⟩ := hs
  split at hs
  · cases hs
    exact List.length_set ..
  · split at hs <;> cases hs <;> exact List.length_set ..

end ConsumerGroup

theorem staffed (reach : Reachable cfg s) : s.Staffed := by
  refine reach.invariant (I := State.Staffed) (fun s a s' h _ hs => ?_) ⟨rfl, rfl⟩
  cases a with
  | loop a =>
    obtain ⟨group, stepped, same⟩ := Option.bind_eq_some_iff.1 hs
    cases same
    cases a with
    | spawn =>
      cases stepped
      constructor
      · show (s.schedulers ++ [Scheduler.idle]).length = (s.group.workers ++ [({} : Worker Message)]).length
        rw [List.length_append, List.length_append, h.schedulers]
        rfl
      · show (s.relays ++ [Relay.idle]).length = (s.group.workers ++ [({} : Worker Message)]).length
        rw [List.length_append, List.length_append, h.relays]
        rfl
    | crash w =>
      have workers := (ConsumerGroup.loopStep_workers stepped).resolve_left (by simp)
      exact h.of_lengths workers (List.length_set ..) (List.length_set ..)
    | _ =>
      have workers := (ConsumerGroup.loopStep_workers stepped).resolve_left (by simp)
      exact h.of_lengths workers rfl rfl
  | relay w a =>
    cases step_transition hs with
    | relayPublish _ appended =>
      rw [(ConsumerGroup.append_eq_some appended).1]
      exact h.of_lengths rfl rfl (List.length_set ..)
    | relaySleep => exact h
    | _ => exact h.of_lengths rfl rfl (List.length_set ..)
  | scheduler w a =>
    cases step_transition hs with
    | schedulerPublish _ _ appended =>
      rw [(ConsumerGroup.append_eq_some appended).1]
      exact h.of_lengths rfl (List.length_set ..) rfl
    | _ => exact h.of_lengths rfl (List.length_set ..) rfl
  | finish i o =>
    cases step_transition hs with
    | finish _ _ _ finished => exact h.of_lengths (ConsumerGroup.finish_workers finished) rfl rfl
  | duplicate r p o =>
    cases step_transition hs with
    | duplicate _ appended =>
      rw [(ConsumerGroup.append_eq_some appended).1]
      exact h.of_lengths rfl rfl rfl
  | request i a =>
    cases step_transition hs with
    | requestPublish _ _ appended =>
      rw [(ConsumerGroup.append_eq_some appended).1]
      exact h.of_lengths rfl rfl rfl
    | _ => exact h.of_lengths rfl rfl rfl
  | _ =>
    cases step_transition hs with
    | _ => exact h.of_lengths rfl rfl rfl

variable (cfg) in
/-- The open requests are rolled back, one after the other. -/
theorem abort_all (todo : List Request) : ∀ (done : List Request) (s : State), s.store.requests = done ++ todo →
    (∀ q ∈ done, q.isOpen = false) → ∃ requests : List Request, (∀ q ∈ requests, q.isOpen = false) ∧
      Recovers cfg s { s with store := { s.store with requests } } := by
  induction todo with
  | nil =>
    intro done s split closed
    refine ⟨done, closed, ?_⟩
    rw [← List.append_nil done, ← split]
    exact .refl s
  | cons q todo ih =>
    intro done s split closed
    cases opened : q.isOpen with
    | false =>
      refine ih (done ++ [q]) s (by rw [split, List.append_assoc]; rfl) fun q' hq => ?_
      rcases List.mem_append.1 hq with old | new
      · exact closed q' old
      · rwa [List.mem_singleton.1 new]
    | true =>
      have found : s.store.requests[done.length]? = some q := by rw [split]; simp
      have step : s.step cfg (.request done.length .abort) =
          some (s.setRequest done.length { q with stage := .aborted }) := by
        simp [State.step, State.requestStep, found, opened]
      obtain ⟨requests, closed, rest⟩ := ih (done ++ [{ q with stage := .aborted }])
        (s.setRequest done.length { q with stage := .aborted })
        (by simp [State.setRequest, split]) fun q' hq => by
          rcases List.mem_append.1 hq with old | new
          · exact closed q' old
          · rw [List.mem_singleton.1 new]
            rfl
      exact ⟨requests, closed, (Recovers.one rfl step).trans rest⟩

variable (cfg) in
/-- The commit requests in transit are lost, one after the other. -/
theorem drop_all (commits : List (Nat × Nat)) : ∀ s : State, s.group.commits = commits →
    Recovers cfg s { s with group := { s.group with commits := [] } } := by
  induction commits with
  | nil =>
    intro s none
    rw [← none]
    exact .refl s
  | cons c commits ih =>
    intro s split
    have step : s.step cfg (.loop (.commitDrop 0)) = some { s with group := { s.group with commits } } := by
      simp [State.step, State.loopStep, ConsumerGroup.loopStep, ConsumerGroup.commitDrop, split]
    exact (Recovers.one rfl step).trans (ih _ rfl)

/-- The processes below `k` have died and started anew, and nothing else has changed. -/
structure Crashed (k : Nat) (s s' : State) : Prop where
  store : s'.store = s.store
  log : s'.group.log = s.group.log
  committed : s'.group.committed = s.group.committed
  commits : s'.group.commits = s.group.commits
  workers : s'.group.workers.length = s.group.workers.length
  schedulers : s'.schedulers.length = s.schedulers.length
  relays : s'.relays.length = s.relays.length
  tasks : ∀ t ∈ s'.group.tasks, t ∈ s.group.tasks ∧ k ≤ t.worker
  idle : ∀ w < k, s'.relays[w]? = some .idle

variable (cfg) in
theorem crash_all (staffed : s.Staffed) (k : Nat) (le : k ≤ s.group.workers.length) :
    ∃ s', Recovers cfg s s' ∧ Crashed k s s' := by
  induction k with
  | zero =>
    exact ⟨s, .refl s, rfl, rfl, rfl, rfl, rfl, rfl, rfl, fun t ht => ⟨ht, Nat.zero_le _⟩,
      fun w hw => absurd hw (by omega)⟩
  | succ k ih =>
    obtain ⟨s₁, first, h⟩ := ih (by omega)
    have alive : k < s₁.group.workers.length := by rw [h.workers]; omega
    have relay : k < s₁.relays.length := by rw [h.relays, staffed.relays]; omega
    have step : s₁.step cfg (.loop (.crash k)) = some ((State.setScheduler { s₁ with
        group := { s₁.group with workers := s₁.group.workers.set k {}, tasks := s₁.group.tasks.filter (·.worker ≠ k) } }
          k .idle).setRelay k .idle) := by
      simp [State.step, State.loopStep, ConsumerGroup.loopStep, ConsumerGroup.crash, alive]
    refine ⟨_, first.trans (Recovers.one rfl step), h.store, h.log, h.committed, h.commits,
      (List.length_set ..).trans h.workers, (List.length_set ..).trans h.schedulers,
      (List.length_set ..).trans h.relays, fun t ht => ?_, fun w hw => ?_⟩
    · obtain ⟨ht, other⟩ := List.mem_filter.1 ht
      obtain ⟨old, le⟩ := h.tasks t ht
      exact ⟨old, by have := of_decide_eq_true other; omega⟩
    · show (s₁.relays.set k .idle)[w]? = some .idle
      by_cases here : w = k
      · subst here
        rw [List.getElem?_set_self relay]
      · rw [List.getElem?_set_ne (Ne.symm here)]
        exact h.idle w (by omega)

/-- **The deployment comes to rest**, and everything that is stored is as it was. -/
theorem rests (reach : Reachable cfg s) : ∃ w s', Recovers cfg s s' ∧ s'.Resting w ∧ Forwards s s' := by
  obtain ⟨requests, closed, aborted⟩ := abort_all cfg s.store.requests [] s rfl (by simp)
  have staffed := staffed reach
  obtain ⟨s₁, crashed, h⟩ := crash_all cfg (s := { s with store := { s.store with requests } })
    ⟨staffed.schedulers, staffed.relays⟩ _ (Nat.le_refl _)
  have tasks : s₁.group.tasks = [] := by
    refine List.eq_nil_iff_forall_not_mem.2 fun t ht => ?_
    obtain ⟨old, le⟩ := h.tasks t ht
    exact absurd ((group_capacity reach).owner t old) (Nat.not_lt.2 le)
  have spawned : s₁.step cfg (.loop .spawn) = some { s₁ with
      group := s₁.group.spawn, schedulers := s₁.schedulers ++ [.idle], relays := s₁.relays ++ [.idle] } := rfl
  have dropped := drop_all cfg _ { s₁ with
      group := s₁.group.spawn, schedulers := s₁.schedulers ++ [.idle], relays := s₁.relays ++ [.idle] } rfl
  refine ⟨s.group.workers.length, _, (aborted.trans crashed).trans ((Recovers.one rfl spawned).trans dropped), ?_, ?_⟩
  · have schedulers : s₁.schedulers.length = s.group.workers.length := h.schedulers.trans staffed.schedulers
    have relays : s₁.relays.length = s.group.workers.length := h.relays.trans staffed.relays
    have idle : ∀ relay ∈ s₁.relays, relay = .idle := by
      intro relay hr
      obtain ⟨i, found⟩ := List.getElem?_of_mem hr
      have alive : i < s.group.workers.length := relays ▸ (List.getElem?_eq_some_iff.1 found).1
      exact (Option.some.inj ((h.idle i alive).symm.trans found)).symm
    refine ⟨⟨{}, ?_, rfl, rfl, rfl, fun _ => rfl, fun p => ?_, fun p => ?_⟩, ⟨?_, ?_⟩, ?_, fun relay hr => ?_, tasks,
      rfl, ?_⟩
    · show (s₁.group.workers ++ [({} : Worker Message)])[s.group.workers.length]? = some {}
      rw [← show s₁.group.workers.length = s.group.workers.length from h.workers]
      exact List.getElem?_concat_length
    · exact lt_of_lt_of_le (show (-1 : Int) < 0 by decide) (Int.natCast_nonneg _)
    · exact lt_of_lt_of_le (show (-1 : Int) < 0 by decide) (Int.natCast_nonneg _)
    · show s.group.workers.length < (s₁.schedulers ++ [Scheduler.idle]).length
      rw [List.length_append, schedulers]
      exact Nat.lt_succ_self _
    · show (s₁.schedulers ++ [Scheduler.idle])[s.group.workers.length]? = some .idle
      rw [← schedulers]
      exact List.getElem?_concat_length
    · show s.group.workers.length < (s₁.relays ++ [Relay.idle]).length
      rw [List.length_append, relays]
      exact Nat.lt_succ_self _
    · rcases List.mem_append.1 (show relay ∈ s₁.relays ++ [Relay.idle] from hr) with old | new
      · exact idle relay old
      · exact List.mem_singleton.1 new
    · show ∀ q ∈ s₁.store.requests, q.isOpen = false
      rw [h.store]
      exact closed
  · have db : s₁.store.db = s.store.db := by rw [h.store]
    have redis : s₁.store.redis = s.store.redis := by rw [h.store]
    have history : s₁.store.history = s.store.history := by rw [h.store]
    exact .of_same db redis history h.log h.committed

end Rest

/-! ## Into the topic -/

/-- The topic has grown by the messages, behind all records of its first partition. -/
structure Grown (ms : List Message) (s s' : State) : Prop where
  db : s'.store.db = s.store.db
  requests : s'.store.requests = s.store.requests
  history : ∀ x ∈ s.store.history, x ∈ s'.store.history
  group : s'.group = { s.group with log := s'.group.log }
  schedulers : s'.schedulers = s.schedulers
  relays : s'.relays = s.relays
  log : ∀ r ∈ s.group.log, r ∈ s'.group.log
  added : ∀ m ∈ ms, ∃ r ∈ s'.group.log, r.value = m ∧ r.partition = 0 ∧ s.group.endOffset 0 ≤ r.offset

section Growth

variable {cfg : Settings} {s s' s'' : State} {m : Message} {ms : List Message} {w : Nat}

namespace ConsumerGroup

variable {V τ : Type} {g g' : ConsumerGroup V τ} {p n : Nat}

theorem endOffset_le (below : ∀ r ∈ g.log, r.partition = p → r.offset < n) : g.endOffset p ≤ n := by
  rw [endOffset]
  have below : ∀ r ∈ g.log.filter (·.partition = p), r.offset < n := by
    intro r hr
    obtain ⟨hr, here⟩ := List.mem_filter.1 hr
    exact below r hr (of_decide_eq_true here)
  generalize g.log.filter (·.partition = p) = rs at below
  induction rs with
  | nil => exact Nat.zero_le n
  | cons r rs ih =>
    have first := below r List.mem_cons_self
    have rest := ih fun r' hr => below r' (List.mem_cons_of_mem _ hr)
    rw [List.foldr_cons]
    omega

/-- If a record of a partition lies at or behind a position, there is a first one. -/
theorem exists_first {log : List (Record V)} {position : Nat} (n : Nat) : ∀ r ∈ log, r.partition = p → r.offset = n →
    position ≤ r.offset → ∃ r ∈ log, r.partition = p ∧ position ≤ r.offset ∧
      ∀ r' ∈ log, r'.partition = p → r'.offset < r.offset → r'.offset < position := by
  induction n using Nat.strongRecOn with
  | ind n ih =>
    intro r hr here offset behind
    by_cases first : ∀ r' ∈ log, r'.partition = p → r'.offset < r.offset → r'.offset < position
    · exact ⟨r, hr, here, behind, first⟩
    · simp only [not_forall, not_lt] at first
      obtain ⟨r', hr', here', before, waits⟩ := first
      exact ih r'.offset (by omega) r' hr' here' rfl waits

theorem endOffset_mono (more : ∀ r ∈ g.log, r ∈ g'.log) : g.endOffset p ≤ g'.endOffset p := by
  refine endOffset_le ?_
  rintro r hr rfl
  exact offset_lt_endOffset (more r hr)

theorem Inv.committed_le (inv : Inv (fun _ => 0) g) (p : Nat) : g.committed p ≤ g.endOffset p := by
  rcases (inv.committed p).within with zero | ⟨r, hr, rfl, le⟩
  · exact zero.trans (Nat.zero_le _)
  · exact le.trans (offset_lt_endOffset hr)

end ConsumerGroup

theorem Grown.refl (s : State) : Grown [] s s :=
  ⟨rfl, rfl, fun _ hx => hx, rfl, rfl, rfl, fun _ hr => hr, fun _ hm => by cases hm⟩

theorem Grown.cons (first : Grown [m] s s') (rest : Grown ms s' s'') : Grown (m :: ms) s s'' where
  db := rest.db.trans first.db
  requests := rest.requests.trans first.requests
  history x hx := rest.history x (first.history x hx)
  group := by rw [rest.group, first.group]
  schedulers := rest.schedulers.trans first.schedulers
  relays := rest.relays.trans first.relays
  log r hr := rest.log r (first.log r hr)
  added m' hm := by
    rcases List.mem_cons.1 hm with rfl | hm
    · obtain ⟨r, hr, value, behind⟩ := first.added m' List.mem_cons_self
      exact ⟨r, rest.log r hr, value, behind⟩
    · obtain ⟨r, hr, value, here, behind⟩ := rest.added m' hm
      exact ⟨r, hr, value, here, (ConsumerGroup.endOffset_mono first.log).trans behind⟩

/-- The message is published behind the records of the first partition. -/
def State.appended (s : State) (m : Message) : State :=
  let r : Record Message := ⟨0, s.group.endOffset 0, m⟩
  { s with group := { s.group with log := s.group.log ++ [r] }, store := s.store.log (.published r) }

theorem publish_appended (s : State) (m : Message) : s.publish m 0 (s.group.endOffset 0) = some (s.appended m) := by
  simp only [State.publish, ConsumerGroup.append_endOffset, Option.bind_eq_bind, Option.bind_some]
  rfl

theorem grown_appended (s : State) (m : Message) (redis : RedisRetryScheduler) :
    Grown [m] s { s.appended m with store := { (s.appended m).store with redis } } where
  db := rfl
  requests := rfl
  history x hx := List.mem_cons_of_mem _ hx
  group := rfl
  schedulers := rfl
  relays := rfl
  log r hr := List.mem_append_left _ hr
  added m' hm := by
    rw [List.mem_singleton.1 hm]
    exact ⟨_, List.mem_append_right _ (List.mem_singleton_self _), rfl, rfl, Nat.le_refl _⟩

theorem Grown.resting (h : Grown ms s s') (rest : s.Resting w) : s'.Resting w := by
  obtain ⟨worker, found, ready⟩ := rest.worker
  refine ⟨⟨worker, ?_, ?_⟩, ?_, ?_, ?_, ?_, ?_, ?_⟩
  · rwa [h.group]
  · rwa [h.group]
  · rw [h.schedulers]
    exact rest.scheduler
  · rw [h.relays]
    exact rest.relay
  · rw [h.relays]
    exact rest.relays
  · rw [h.group]
    exact rest.tasks
  · rw [h.group]
    exact rest.commits
  · rw [h.requests]
    exact rest.requests

/-! ## The outbox -/

variable (cfg) in
theorem relay_all (todo : List OutboxEntry) : ∀ (done : List OutboxEntry) (s : State), w < s.relays.length →
    ∃ s', Grown (todo.map fun o => .fanOut o.eventId) s s' ∧ s'.store.redis = s.store.redis ∧
      Recovers cfg (s.setRelay w (.batch todo done)) (s'.setRelay w (.batch [] (done ++ todo))) := by
  induction todo with
  | nil =>
    intro done s alive
    refine ⟨s, .refl s, rfl, ?_⟩
    rw [List.append_nil]
    exact .refl _
  | cons o todo ih =>
    intro done s alive
    obtain ⟨s', grown, redis, rest⟩ := ih (done ++ [o]) (s.appended (.fanOut o.eventId)) alive
    have step : (s.setRelay w (.batch (o :: todo) done)).step cfg (.relay w (.publish 0 (s.group.endOffset 0))) =
        some ((s.appended (.fanOut o.eventId)).setRelay w (.batch todo (done ++ [o]))) := by
      have found : (s.setRelay w (.batch (o :: todo) done)).relays[w]? = some (.batch (o :: todo) done) :=
        List.getElem?_set_self alive
      have published : (s.setRelay w (.batch (o :: todo) done)).publish (.fanOut o.eventId) 0 (s.group.endOffset 0) =
          some ((s.setRelay w (.batch (o :: todo) done)).appended (.fanOut o.eventId)) := publish_appended _ _
      simp only [State.step, State.relayStep, found, published, Option.bind_eq_bind, Option.bind_some]
      simp only [State.setRelay, State.appended, List.set_set]
    refine ⟨s', (grown_appended s _ s.store.redis).cons grown, redis, ?_⟩
    rw [List.append_assoc] at rest
    exact (Recovers.one rfl step).trans rest

/-- Where no relay has locked anything, the first rows are selected. -/
theorem selectable_idle (relays : ∀ relay ∈ s.relays, relay = .idle) :
    s.selectable = s.store.db.outbox.take relayBatch := by
  rw [State.selectable, List.filter_eq_self.2]
  intro o _
  refine List.all_eq_true.2 fun relay hr => ?_
  rw [relays relay hr]
  rfl

/-- The relay publishes a batch, and commits. -/
theorem relay_batch (reach : Reachable cfg s) (rest : s.Resting w) (left : s.store.db.outbox ≠ []) :
    ∃ s', Recovers cfg s s' ∧ s'.Resting w ∧ Forwards s s' ∧
      s'.store.db.outbox.length < s.store.db.outbox.length := by
  have idle : s.relays[w]? = some .idle := by
    have found := List.getElem?_eq_getElem rest.relay
    rw [found, rest.relays _ (List.mem_of_getElem? found)]
  have all := selectable_idle rest.relays
  have some_rows : s.selectable ≠ [] := by
    rw [all]
    simpa [relayBatch] using left
  have selected : s.step cfg (.relay w .select) = some (s.setRelay w (.batch s.selectable [])) := by
    simp only [State.step, State.relayStep, idle, Option.bind_eq_bind, Option.bind_some]
  obtain ⟨s₁, grown, redis, published⟩ := relay_all cfg s.selectable [] s rest.relay
  have rest₁ := grown.resting rest
  have alive := rest₁.relay
  have db : s₁.store.db.deleteOutbox (s.selectable.map (·.id)) =
      s.store.db.deleteOutbox (s.selectable.map (·.id)) := by rw [grown.db]
  have committed : (s₁.setRelay w (.batch [] s.selectable)).step cfg (.relay w .commit) =
      some ((s₁.setDb (s.store.db.deleteOutbox (s.selectable.map (·.id)))).setRelay w .idle) := by
    have found : (s₁.setRelay w (.batch [] s.selectable)).relays[w]? = some (.batch [] s.selectable) :=
      List.getElem?_set_self alive
    simp only [State.step, State.relayStep, found, Option.bind_eq_bind, Option.bind_some]
    rw [← db]
    simp only [State.setRelay, State.setDb, List.set_set]
  have outbox : ∀ o ∈ s.store.db.outbox, o ∉ s.selectable → o.id ∉ s.selectable.map (·.id) := by
    intro o ho waits taken
    obtain ⟨o', selected, same⟩ := List.mem_map.1 taken
    have ho' : o' ∈ s.store.db.outbox := List.mem_of_mem_take (all ▸ selected)
    exact waits (Tables.eq_of_nodup_map s.store.db.valid.outbox_pkey ho' ho same ▸ selected)
  refine ⟨_, (Recovers.one rfl selected).trans (published.trans (Recovers.one rfl committed)), ?_, ?_, ?_⟩
  · refine ⟨rest₁.worker, rest₁.scheduler, ?_, fun relay hr => ?_, rest₁.tasks, rest₁.commits, rest₁.requests⟩
    · show w < (s₁.relays.set w .idle).length
      rwa [List.length_set]
    · rcases List.mem_or_eq_of_mem_set (show relay ∈ s₁.relays.set w .idle from hr) with old | rfl
      · exact rest₁.relays relay old
      · rfl
  · refine ⟨rfl, rfl, grown.history, fun e p _ asked => .inl ?_⟩
    rcases asked with ⟨o, ho, rfl⟩ | held | ⟨r, hr, concerns, behind⟩
    · by_cases taken : o ∈ s.selectable
      · obtain ⟨r, hr, value, here, behind⟩ := grown.added _ (List.mem_map_of_mem taken)
        refine .inr (.inr ⟨r, hr, ?_, ?_⟩)
        · rw [value]
          exact ⟨rfl, .inl rfl⟩
        · show s₁.group.committed r.partition ≤ r.offset
          rw [grown.group, here]
          exact ((group_inv reach).committed_le 0).trans behind
      · exact .inl ⟨o, List.mem_filter.2 ⟨ho, decide_eq_true (outbox o ho taken)⟩, rfl⟩
    · refine .inr (.inl ?_)
      show ∃ n, s₁.store.redis.Holds ⟨e, p, n⟩
      rwa [redis]
    · refine .inr (.inr ⟨r, grown.log r hr, concerns, ?_⟩)
      show s₁.group.committed r.partition ≤ r.offset
      rwa [grown.group]
  · obtain ⟨o, taken⟩ := List.exists_mem_of_ne_nil _ some_rows
    refine List.length_filter_lt_length_iff_exists.2 ⟨o, List.mem_of_mem_take (all ▸ taken), ?_⟩
    simpa using ⟨o, taken, rfl⟩

theorem drain_outbox (reach : Reachable cfg s) (rest : s.Resting w) :
    ∃ s', Recovers cfg s s' ∧ s'.Resting w ∧ Forwards s s' ∧ s'.store.db.outbox = [] := by
  have batch : ∀ s₁, (Reachable cfg s₁ ∧ s₁.Resting w ∧ Forwards s s₁) → ¬ s₁.store.db.outbox = [] →
      ∃ s₂, Recovers cfg s₁ s₂ ∧ (Reachable cfg s₂ ∧ s₂.Resting w ∧ Forwards s s₂) ∧
        s₂.store.db.outbox.length < s₁.store.db.outbox.length := by
    rintro s₁ ⟨reach, rest, before⟩ left
    obtain ⟨s₂, batch, rest, after, less⟩ := relay_batch reach rest left
    exact ⟨s₂, batch, ⟨reach.trans batch.any, rest, before.trans after⟩, less⟩
  obtain ⟨s', drained, ⟨-, rest, forwards⟩, empty⟩ := Lts.Reachable.descend batch ⟨reach, rest, .refl s⟩
  exact ⟨s', drained, rest, forwards, empty⟩

/-! ## Redis -/

/-- The first message that was polled is published, and its entry cancelled. -/
theorem republish_first (s : State) (k : Member) (rest : List Message) (alive : w < s.schedulers.length) :
    Recovers cfg (s.setScheduler w (.due (k.message :: rest))) (State.setScheduler { s.appended k.message with
      store := { (s.appended k.message).store with redis := s.store.redis.cancel k } } w (.next rest)) := by
  have published : (s.setScheduler w (.due (k.message :: rest))).step cfg
      (.scheduler w (.publish 0 (s.group.endOffset 0))) =
        some ((s.appended k.message).setScheduler w (.cancelling k.message rest)) := by
    have found : (s.setScheduler w (.due (k.message :: rest))).schedulers[w]? = some (.due (k.message :: rest)) :=
      List.getElem?_set_self alive
    have appended : (s.setScheduler w (.due (k.message :: rest))).publish k.message 0 (s.group.endOffset 0) =
        some ((s.setScheduler w (.due (k.message :: rest))).appended k.message) := publish_appended _ _
    have targeted : k.message.endpointId.isSome = true := rfl
    simp only [State.step, State.schedulerStep, found, targeted, appended, if_true, Option.bind_eq_bind,
      Option.bind_some]
    simp only [State.setScheduler, State.appended, List.set_set]
  have cancelled : ((s.appended k.message).setScheduler w (.cancelling k.message rest)).step cfg
      (.scheduler w .cancel) = some (State.setScheduler { s.appended k.message with
        store := { (s.appended k.message).store with redis := s.store.redis.cancel k } } w (.next rest)) := by
    have found : ((s.appended k.message).setScheduler w (.cancelling k.message rest)).schedulers[w]? =
        some (.cancelling k.message rest) := List.getElem?_set_self alive
    have target : k.message.endpointId = some k.endpointId := rfl
    simp only [State.step, State.schedulerStep, found, target, Option.bind_eq_bind, Option.bind_some]
    simp only [State.setScheduler, List.set_set]
    rfl
  exact (Recovers.one rfl published).trans (Recovers.one rfl cancelled)

variable (cfg) in
theorem republish_all (ks : List Member) : ∀ s : State, w < s.schedulers.length →
    ∃ s', Grown (ks.map Member.message) s s' ∧
      (∀ k, s'.store.redis.Holds k ↔ s.store.redis.Holds k ∧ k ∉ ks) ∧
      Recovers cfg (s.setScheduler w (.next (ks.map Member.message))) (s'.setScheduler w .idle) := by
  induction ks with
  | nil =>
    intro s alive
    exact ⟨s, .refl s, fun k => by simp, .refl _⟩
  | cons k ks ih =>
    intro s alive
    obtain ⟨s', grown, held, rest⟩ := ih { s.appended k.message with
      store := { (s.appended k.message).store with redis := s.store.redis.cancel k } } alive
    refine ⟨s', (grown_appended s k.message (s.store.redis.cancel k)).cons grown, fun k' => ?_,
      (republish_first s k _ alive).trans rest⟩
    rw [held k', RedisRetryScheduler.holds_cancel, List.mem_cons, not_or, and_comm (a := k' ≠ k), and_assoc]

namespace RedisRetryScheduler

variable {q : RedisRetryScheduler}

theorem pollDue_members (stored : ∀ k m, q.data.lookup k = some m → m = k.message) (now : Nat) :
    q.pollDue now = (dueMembers q.zset now pollBatch).map Member.message := by
  have held := dueMembers_held q now pollBatch
  rw [pollDue, pollScript, pollScript_fold held, List.nil_append, ← List.filterMap_eq_map]
  refine List.filterMap_congr fun k hk => ?_
  obtain ⟨m, found⟩ := Option.isSome_iff_exists.1 (AList.lookup_isSome.2 (held k hk))
  rw [found, stored k m found]
  rfl

/-- An entry is due at some time. -/
theorem dueMembers_ne_nil {k : Member} (held : q.Holds k) : ∃ now, dueMembers q.zset now pollBatch ≠ [] := by
  obtain ⟨now, found⟩ := Option.isSome_iff_exists.1 (AList.lookup_isSome.2 (mem_zset_iff.2 held))
  refine ⟨now, fun none => ?_⟩
  have entry : (⟨k, now⟩ : (_ : Member) × Nat) ∈ q.zset.entries.filter (·.2 ≤ now) :=
    List.mem_filter.2 ⟨AList.mem_lookup_iff.1 found, decide_eq_true (Nat.le_refl _)⟩
  rw [dueMembers, List.map_eq_nil_iff, List.take_eq_nil_iff] at none
  have empty := none.resolve_left (by decide)
  rw [← List.mem_insertionSort (zle · ·), empty] at entry
  cases entry

end RedisRetryScheduler

/-- A tick publishes what it polls, and its entries go. -/
theorem scheduler_tick (reach : Reachable cfg s) (rest : s.Resting w) {k : Member} (held : s.store.redis.Holds k) :
    ∃ s', Recovers cfg s s' ∧ s'.Resting w ∧ Forwards s s' ∧ s'.store.db.outbox = s.store.db.outbox ∧
      s'.store.redis.data.keys.toFinset.card < s.store.redis.data.keys.toFinset.card := by
  obtain ⟨now, due⟩ := RedisRetryScheduler.dueMembers_ne_nil held
  obtain ⟨alive, idle⟩ := rest.scheduler
  have polled : s.step cfg (.scheduler w (.poll now)) =
      some (s.setScheduler w (.next (s.store.redis.pollDue now))) := by
    simp only [State.step, State.schedulerStep, idle, Option.bind_eq_bind, Option.bind_some]
  have members := RedisRetryScheduler.dueMembers_held s.store.redis now pollBatch
  rw [RedisRetryScheduler.pollDue_members (stored_message reach)] at polled
  generalize RedisRetryScheduler.dueMembers s.store.redis.zset now pollBatch = ks at *
  obtain ⟨s₁, grown, kept, published⟩ := republish_all cfg ks s alive
  have rest₁ := grown.resting rest
  refine ⟨_, (Recovers.one rfl polled).trans published, ?_, ?_, ?_, ?_⟩
  · refine ⟨rest₁.worker, ⟨?_, ?_⟩, rest₁.relay, rest₁.relays, rest₁.tasks, rest₁.commits, rest₁.requests⟩
    · show w < (s₁.schedulers.set w .idle).length
      rw [List.length_set]
      exact rest₁.scheduler.1
    · exact List.getElem?_set_self rest₁.scheduler.1
  · refine ⟨by rw [← grown.db]; rfl, by rw [← grown.db]; rfl, grown.history, fun e p _ asked => .inl ?_⟩
    rcases asked with ⟨o, ho, rfl⟩ | ⟨n, held⟩ | ⟨r, hr, concerns, behind⟩
    · refine .inl ⟨o, ?_, rfl⟩
      show o ∈ s₁.store.db.outbox
      rwa [grown.db]
    · by_cases taken : (⟨e, p, n⟩ : Member) ∈ ks
      · obtain ⟨r, hr, value, here, behind⟩ := grown.added _ (List.mem_map_of_mem taken)
        refine .inr (.inr ⟨r, hr, ?_, ?_⟩)
        · rw [value]
          exact ⟨rfl, .inr rfl⟩
        · show s₁.group.committed r.partition ≤ r.offset
          rw [grown.group, here]
          exact ((group_inv reach).committed_le 0).trans behind
      · exact .inr (.inl ⟨n, (kept _).2 ⟨held, taken⟩⟩)
    · refine .inr (.inr ⟨r, grown.log r hr, concerns, ?_⟩)
      show s₁.group.committed r.partition ≤ r.offset
      rwa [grown.group]
  · show s₁.store.db.outbox = s.store.db.outbox
    rw [grown.db]
  · obtain ⟨k₀, first⟩ := List.exists_mem_of_ne_nil _ due
    have fewer : ∀ k, k ∈ s₁.store.redis.data.keys ↔ k ∈ s.store.redis.data.keys ∧ k ∉ ks := kept
    refine Finset.card_lt_card (Finset.ssubset_iff_subset_ne.2 ⟨fun k' hk => ?_, fun same => ?_⟩)
    · exact List.mem_toFinset.2 ((fewer k').1 (List.mem_toFinset.1 hk)).1
    · have here : k₀ ∈ s₁.store.redis.data.keys :=
        List.mem_toFinset.1 (same ▸ List.mem_toFinset.2 (members k₀ first))
      exact ((fewer k₀).1 here).2 first

theorem drain_redis (reach : Reachable cfg s) (rest : s.Resting w) (empty : s.store.db.outbox = []) :
    ∃ s', Recovers cfg s s' ∧ s'.Resting w ∧ Forwards s s' ∧ s'.store.db.outbox = [] ∧
      ∀ k, ¬ s'.store.redis.Holds k := by
  have tick : ∀ s₁, (Reachable cfg s₁ ∧ s₁.Resting w ∧ Forwards s s₁ ∧ s₁.store.db.outbox = []) →
      ¬ (∀ k, ¬ s₁.store.redis.Holds k) →
      ∃ s₂, Recovers cfg s₁ s₂ ∧ (Reachable cfg s₂ ∧ s₂.Resting w ∧ Forwards s s₂ ∧ s₂.store.db.outbox = []) ∧
        s₂.store.redis.data.keys.toFinset.card < s₁.store.redis.data.keys.toFinset.card := by
    rintro s₁ ⟨reach, rest, before, empty⟩ left
    obtain ⟨k, held⟩ := not_forall_not.1 left
    obtain ⟨s₂, tick, rest, after, same, less⟩ := scheduler_tick reach rest held
    exact ⟨s₂, tick, ⟨reach.trans tick.any, rest, before.trans after, same.trans empty⟩, less⟩
  obtain ⟨s', drained, ⟨-, rest, forwards, empty⟩, gone⟩ := Lts.Reachable.descend tick ⟨reach, rest, .refl s, empty⟩
  exact ⟨s', drained, rest, forwards, empty, gone⟩

end Growth

end HookRelay
