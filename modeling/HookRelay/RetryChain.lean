import HookRelay.SequentialDelivery
import HookRelay.System

/-!
# The retries of one delivery, to the last

One fan-out of a new event with one matching endpoint, run alone: `_process_record` on what the pending topic
holds, then a tick of `run_scheduler`, and so on. What the endpoint answers decides how many attempts are
made. The delays of the backoff are any times by which the next tick comes.
-/

namespace HookRelay

/-! ## The pipeline -/

/-- The POST that was made, if it is one that happened. -/
def Happening.post : Happening → Option Post
  | .posted _ p => some p
  | _ => none

/-- The POSTs so far, in order. -/
def Store.posts (st : Store) : List Post := st.history.reverse.filterMap (·.post)

/-- The stores, and the records of the pending topic that are not processed yet. -/
structure Pipeline where
  store : Store
  pending : List (Record Message)
  offset : Nat

section

variable (cfg : Settings)

/-- `_process_record` on each record. -/
def consume (env : Store → UUID → Reaction) : Store → List (Record Message) → Option Store
  | st, [] => some st
  | st, r :: rest => do consume env (← processRecord cfg st r env) rest

/-- The loop of `run_scheduler` over the messages it polled. -/
def republish : Pipeline → List Message → Pipeline
  | p, [] => p
  | p, m :: rest =>
    match m.endpointId with
    | none => republish p rest
    | some endpointId =>
      let redis := p.store.redis.cancel ⟨m.eventId, endpointId, m.attempt⟩
      republish { p with
        store := { p.store with redis }
        pending := p.pending ++ [⟨0, p.offset, m⟩]
        offset := p.offset + 1 } rest

/-- All of the pending records, then a tick at `now`. -/
def Pipeline.round (env : Store → UUID → Reaction) (now : Nat) (p : Pipeline) : Option Pipeline := do
  let store ← consume cfg env p.store p.pending
  some (republish { p with store, pending := [] } (store.redis.pollDue now))

/-- The due times of the retries and the times of the ticks: each comes when what was scheduled before it is
due. -/
structure Clock where
  retryAfter : Nat → Nat
  tick : Nat → Nat
  due : ∀ i, retryAfter i ≤ tick i

/-- A reply whose text the column takes. -/
structure StoredReply where
  result : HttpResult
  storable : result.storable = true

/-- The `n`-th POST is answered by `replies n`. -/
def answers (replies : Nat → StoredReply) (dlqId : UUID) (retryAfter : Nat) (st : Store) (_ : UUID) : Reaction :=
  ⟨(replies st.posts.length).result, dlqId, retryAfter⟩

/-- The fan-out, and `t` rounds. -/
def rounds (replies : Nat → StoredReply) (dlqId : UUID) (clock : Clock) (st : Store) (eventId : UUID) :
    Nat → Option Pipeline
  | 0 => some ⟨st, [⟨0, 0, .fanOut eventId⟩], 1⟩
  | t + 1 => do
    (← rounds replies dlqId clock st eventId t).round cfg
      (answers replies dlqId (clock.retryAfter t)) (clock.tick t)

end

/-! ## What is expected of it -/

/-- A success, or a 4xx other than 429. -/
def HttpResult.final (r : HttpResult) : Bool := r.succeeded || r.isPermanent

/-- The least index below `limit` whose reply is final, or the one before `limit`. -/
def lastAttempt (replies : Nat → StoredReply) (limit : Nat) : Nat :=
  ((List.range limit).find? fun i => (replies i).result.final).getD (limit - 1)

/-- The delivery of an attempt. -/
def attemptOf (event : Event) (endpoint : Endpoint) (attemptNumber : Nat) : Delivery :=
  { event, attemptNumber, endpoint, stage := .checking, rest := [] }

/-- A new event with one matching endpoint, and nothing in Redis. -/
structure NewEvent (st : Store) (event : Event) (endpoint : Endpoint) (dlqId : UUID) : Prop where
  found : st.db.getEvent event.id = some event
  matching : st.db.matching event.eventType = [endpoint]
  attempts : ∀ a ∈ st.db.attempts, a.eventId ≠ event.id
  dlq : ∀ d ∈ st.db.dlq, d.eventId ≠ event.id
  zset : st.redis.zset = ∅
  data : st.redis.data = ∅
  history : st.history = []
  dlqId : dlqId ∉ st.db.issued

section

variable (cfg : Settings) (replies : Nat → StoredReply) (event : Event) (endpoint : Endpoint)

/-- The POSTs of the first `n` attempts. -/
def postsOf (n : Nat) : List Post :=
  (List.range n).map fun i => (attemptOf event endpoint i).post (replies i).result

/-- The rows of the first `n` attempts. -/
def rowsOf (n : Nat) : List DeliveryAttempt :=
  (List.range n).map fun i => (attemptOf event endpoint i).row (replies i).result

/-- The dead letter of attempt `k`, if it is not a success. -/
def deadLetterOf (dlqId : UUID) (k : Nat) : List DLQEntry :=
  if (replies k).result.succeeded then []
  else [⟨dlqId, event.id, endpoint.id, Delivery.reason cfg (replies k).result⟩]

/-- The pipeline has come to its end after the attempts up to `k`. -/
structure Finished (dlqId : UUID) (st : Store) (k : Nat) (p : Pipeline) : Prop where
  pending : p.pending = []
  zset : p.store.redis.zset = ∅
  data : p.store.redis.data = ∅
  posts : p.store.posts = postsOf replies event endpoint (k + 1)
  attempts : p.store.db.attempts = st.db.attempts ++ rowsOf replies event endpoint (k + 1)
  dlq : p.store.db.dlq = st.db.dlq ++ deadLetterOf cfg replies event endpoint dlqId k

end

/-! ## Redis with at most one entry -/

namespace RedisRetryScheduler

variable {q : RedisRetryScheduler} {k : Member} {m : Message} {due now : Nat}

theorem dueMembers_empty (zset : q.zset = ∅) : dueMembers q.zset now pollBatch = [] := by
  rw [zset]
  rfl

theorem pollDue_empty (zset : q.zset = ∅) : q.pollDue now = [] := by
  rw [pollDue, pollScript, dueMembers_empty zset]
  rfl

theorem pollDue_schedule (zset : q.zset = ∅) (le : due ≤ now) : (q.schedule k m due).pollDue now = [m] := by
  have entries : (q.schedule k m due).zset.entries = [⟨k, due⟩] := by
    change (q.zset.insert k due).entries = _
    rw [zset]
    rfl
  have members : dueMembers (q.schedule k m due).zset now pollBatch = [k] := by
    rw [dueMembers, entries]
    simp [le, pollBatch]
  have held : (q.schedule k m due).data.lookup k = some m := AList.lookup_insert _
  rw [pollDue, pollScript, pollScript_fold (dueMembers_held _ now pollBatch), members, List.nil_append]
  simp [held]

theorem erase_insert_empty {β : Type} (k : Member) (b : β) :
    ((∅ : AList fun _ : Member => β).insert k b).erase k = ∅ :=
  AList.ext (List.kerase_cons_eq rfl)

theorem cancel_schedule (k : Member) (m : Message) (due : Nat) (zset : q.zset = ∅) (data : q.data = ∅) :
    ((q.schedule k m due).cancel k).zset = ∅ ∧ ((q.schedule k m due).cancel k).data = ∅ := by
  constructor
  · change (q.zset.insert k due).erase k = ∅
    rw [zset, erase_insert_empty]
  · change (q.data.insert k m).erase k = ∅
    rw [data, erase_insert_empty]

theorem cancel_empty (zset : q.zset = ∅) (data : q.data = ∅) :
    (q.cancel k).zset = ∅ ∧ (q.cancel k).data = ∅ := by
  constructor
  · change q.zset.erase k = ∅
    rw [zset]
    rfl
  · change q.data.erase k = ∅
    rw [data]
    rfl

end RedisRetryScheduler

/-! ## The last attempt -/

section

variable {cfg : Settings} {replies : Nat → StoredReply} {event : Event} {endpoint : Endpoint} {dlqId : UUID}
  {st : Store} {p : Pipeline} {limit n t : Nat} {clock : Clock}

theorem lastAttempt_spec (replies : Nat → StoredReply) (pos : 0 < limit) : lastAttempt replies limit < limit ∧
    (∀ i < lastAttempt replies limit, (replies i).result.final = false) ∧
    ((replies (lastAttempt replies limit)).result.final = true ∨ lastAttempt replies limit + 1 = limit) := by
  unfold lastAttempt
  cases found : (List.range limit).find? fun i => (replies i).result.final with
  | none =>
    have never := List.find?_eq_none.1 found
    refine ⟨by simp; omega, fun i hi => ?_, .inr (by simp; omega)⟩
    simpa using never i (List.mem_range.2 (by simp at hi; omega))
  | some k =>
    obtain ⟨final, below, first⟩ := List.find?_range_eq_some.1 found
    exact ⟨List.mem_range.1 below, fun i hi => by simpa using first i hi, .inl final⟩

/-! ## One attempt -/

/-- The message of an attempt. -/
def messageOf (event : Event) (endpoint : Endpoint) : Nat → Message
  | 0 => .fanOut event.id
  | n + 1 => .retry event.id endpoint.id (n + 1)

/-- Before attempt `n`, none of those before was final. -/
structure Underway (replies : Nat → StoredReply) (event : Event) (endpoint : Endpoint) (st : Store) (n : Nat)
    (st' : Store) : Prop where
  zset : st'.redis.zset = ∅
  data : st'.redis.data = ∅
  posts : st'.posts = postsOf replies event endpoint n
  attempts : st'.db.attempts = st.db.attempts ++ rowsOf replies event endpoint n
  dlq : st'.db.dlq = st.db.dlq
  endpoints : st'.db.endpoints = st.db.endpoints
  events : st'.db.events = st.db.events
  issued : st'.db.issued = st.db.issued

theorem messageOf_eventId : (messageOf event endpoint n).eventId = event.id := by
  cases n <;> rfl

theorem messageOf_attempt : (messageOf event endpoint n).attempt = n := by
  cases n <;> rfl

theorem length_postsOf : (postsOf replies event endpoint n).length = n := by
  rw [postsOf, List.length_map, List.length_range]

theorem targets_messageOf {db : Database} (matching : db.matching event.eventType = [endpoint]) :
    targets db.toTables event (messageOf event endpoint n) = [endpoint] := by
  have mem : endpoint ∈ db.matching event.eventType := by
    rw [matching]
    exact List.mem_cons_self
  obtain ⟨stored, enabled, -⟩ := Tables.mem_matching.1 mem
  cases n with
  | zero => exact matching
  | succ n =>
    change (db.getEndpoint endpoint.id).toList.filter (·.enabled) = [endpoint]
    rw [db.valid.getEndpoint_eq stored]
    simp [enabled]

variable {st' : Store} {r : Record Message} {reaction : Reaction}

theorem Underway.matching (new : NewEvent st event endpoint dlqId)
    (underway : Underway replies event endpoint st n st') :
    st'.db.matching event.eventType = [endpoint] := by
  rw [← new.matching, Tables.matching, underway.endpoints, Tables.matching]

theorem Underway.found (new : NewEvent st event endpoint dlqId)
    (underway : Underway replies event endpoint st n st') : st'.db.getEvent event.id = some event := by
  rw [← new.found, Tables.getEvent, underway.events, Tables.getEvent]

theorem Underway.eventId_mem (new : NewEvent st event endpoint dlqId)
    (underway : Underway replies event endpoint st n st') : event.id ∈ st'.db.eventIds :=
  Tables.mem_eventIds.2 ⟨event, (Tables.getEvent_some (underway.found new)).1, rfl⟩

theorem Underway.endpointId_mem (new : NewEvent st event endpoint dlqId)
    (underway : Underway replies event endpoint st n st') : endpoint.id ∈ st'.db.endpointIds := by
  have mem : endpoint ∈ st'.db.matching event.eventType := by
    rw [underway.matching new]
    exact List.mem_cons_self
  exact Tables.mem_endpointIds.2 ⟨endpoint, (Tables.mem_matching.1 mem).1, rfl⟩

theorem Underway.no_success (new : NewEvent st event endpoint dlqId)
    (running : ∀ i < n, (replies i).result.final = false)
    (underway : Underway replies event endpoint st n st') :
    st'.db.hasSuccess event.id endpoint.id = false := by
  rw [← Bool.not_eq_true, Tables.hasSuccess_iff, underway.attempts]
  rintro ⟨a, mem, own, -, success⟩
  obtain old | row := List.mem_append.1 mem
  · exact new.attempts a old own
  · obtain ⟨i, hi, rfl⟩ := List.mem_map.1 row
    have failed := running i (List.mem_range.1 hi)
    rw [HttpResult.final, Bool.or_eq_false_iff] at failed
    rw [HttpResult.succeeded_iff.2 success] at failed
    cases failed.1

theorem Underway.no_row (new : NewEvent st event endpoint dlqId)
    (underway : Underway replies event endpoint st n st') : ¬ st'.db.HasRow event.id endpoint.id n := by
  rw [Tables.HasRow, underway.attempts]
  rintro ⟨a, mem, own, -, number⟩
  obtain old | row := List.mem_append.1 mem
  · exact new.attempts a old own
  · obtain ⟨i, hi, rfl⟩ := List.mem_map.1 row
    exact absurd number (List.mem_range.1 hi).ne

theorem Underway.no_dlq (new : NewEvent st event endpoint dlqId)
    (underway : Underway replies event endpoint st n st') : ¬ st'.db.HasDlq event.id endpoint.id := by
  rw [Tables.HasDlq, underway.dlq]
  rintro ⟨entry, mem, own, -⟩
  exact new.dlq entry mem own

theorem posts_log_posted {post : Post} : (st.log (.posted r post)).posts = st.posts ++ [post] := by
  simp [Store.posts, Store.log, Happening.post]

theorem rowsOf_succ : rowsOf replies event endpoint (n + 1) =
    rowsOf replies event endpoint n ++ [(attemptOf event endpoint n).row (replies n).result] := by
  rw [rowsOf, rowsOf, List.range_succ, List.map_append, List.map_singleton]

theorem postsOf_succ : postsOf replies event endpoint (n + 1) =
    postsOf replies event endpoint n ++ [(attemptOf event endpoint n).post (replies n).result] := by
  rw [postsOf, postsOf, List.range_succ, List.map_append, List.map_singleton]

variable (cfg) in
/-- Attempt `n` up to its failure path. -/
theorem Underway.attempt (new : NewEvent st event endpoint dlqId)
    (running : ∀ i < n, (replies i).result.final = false)
    (underway : Underway replies event endpoint st n st') (message : r.value = messageOf event endpoint n)
    (retryAfter : Nat) : ∃ st₁, Underway replies event endpoint st (n + 1) st₁ ∧
      processRecord cfg st' r (answers replies dlqId retryAfter) =
        if (replies n).result.succeeded then some st₁
        else retryOrBury cfg st₁ ⟨(replies n).result, dlqId, retryAfter⟩ (attemptOf event endpoint n)
          (replies n).result := by
  have found := underway.found new
  have matching := underway.matching new
  have index : st'.posts.length = n := by rw [underway.posts, length_postsOf]
  have event_ := underway.eventId_mem new
  have endpoint_ := underway.endpointId_mem new
  have inserts : ∃ st₁, insertAttempt
      (st'.log (.posted r ((attemptOf event endpoint n).post (replies n).result))) r
      ((attemptOf event endpoint n).row (replies n).result) = some st₁ :=
    insertAttempt_returns (replies n).storable event_ endpoint_
  obtain ⟨st₁, inserted⟩ := inserts
  refine ⟨st₁, ?_, ?_⟩
  · obtain ⟨-, ⟨taken, -⟩ | ⟨-, db, tables, rfl⟩⟩ := insertAttempt_cases inserted
    · have taken : st'.db.HasRow event.id endpoint.id n := taken
      exact absurd taken (underway.no_row new)
    · have posts : (st'.log (.posted r ((attemptOf event endpoint n).post (replies n).result))).posts =
          st'.posts ++ [(attemptOf event endpoint n).post (replies n).result] := posts_log_posted
      constructor
      case zset => exact underway.zset
      case data => exact underway.data
      case posts =>
        rw [postsOf_succ, ← underway.posts, ← posts]
        simp [Store.posts, Store.log, Happening.post]
      case attempts =>
        dsimp only
        rw [tables, rowsOf_succ, ← List.append_assoc, ← underway.attempts]
        rfl
      all_goals dsimp only
      all_goals rw [tables]
      · exact underway.dlq
      · exact underway.endpoints
      · exact underway.events
      · exact underway.issued
  · have reaction : answers replies dlqId retryAfter st' endpoint.id = ⟨(replies n).result, dlqId, retryAfter⟩ := by
      rw [answers, index]
    have delivery : deliverToEndpoint cfg st' r ⟨(replies n).result, dlqId, retryAfter⟩
        (attemptOf event endpoint n) = if (replies n).result.succeeded then some st₁
        else retryOrBury cfg st₁ ⟨(replies n).result, dlqId, retryAfter⟩ (attemptOf event endpoint n)
          (replies n).result :=
      deliverToEndpoint_inserted (underway.no_success new running) inserted
    unfold processRecord
    rw [message, messageOf_eventId, found, messageOf_attempt]
    dsimp only
    rw [targets_messageOf matching, deliverAll, reaction, ← attemptOf, delivery]
    simp only [deliverAll, Option.bind_eq_bind, Option.bind_fun_some]

/-! ## The rounds -/

/-- The pipeline before attempt `n`. -/
structure Waiting (replies : Nat → StoredReply) (event : Event) (endpoint : Endpoint) (st : Store) (n : Nat)
    (p : Pipeline) : Prop where
  underway : Underway replies event endpoint st n p.store
  pending : ∃ offset, p.pending = [⟨0, offset, messageOf event endpoint n⟩]

theorem consume_single {env : Store → UUID → Reaction} : consume cfg env st [r] = processRecord cfg st r env := by
  simp only [consume, Option.bind_eq_bind, Option.bind_fun_some]

/-- A round after which there is nothing in Redis. -/
theorem round_quiet {env : Store → UUID → Reaction} {now : Nat} {st₁ : Store}
    (consumed : consume cfg env p.store p.pending = some st₁) (zset : st₁.redis.zset = ∅) :
    p.round cfg env now = some { p with store := st₁, pending := [] } := by
  rw [Pipeline.round, consumed, Option.bind_eq_bind, Option.bind_some,
    RedisRetryScheduler.pollDue_empty zset, republish]

/-- The round of an attempt that is neither final nor the last: its retry is scheduled, and the tick publishes and
cancels it. -/
theorem Waiting.again {now retryAfter : Nat} (new : NewEvent st event endpoint dlqId)
    (running : ∀ i < n, (replies i).result.final = false) (waiting : Waiting replies event endpoint st n p)
    (failed : (replies n).result.final = false) (more : ((n + 1 : Nat) : Int) < cfg.maxRetryAttempts)
    (due : retryAfter ≤ now) : ∃ p', p.round cfg (answers replies dlqId retryAfter) now = some p' ∧
      Waiting replies event endpoint st (n + 1) p' ∧
      .scheduled ⟨event.id, endpoint.id, n + 1⟩ ∈ p'.store.history := by
  obtain ⟨offset, pending⟩ := waiting.pending
  obtain ⟨st₁, underway, run⟩ := waiting.underway.attempt cfg
    (r := ⟨0, offset, messageOf event endpoint n⟩) new running rfl retryAfter
  rw [HttpResult.final, Bool.or_eq_false_iff] at failed
  have again : (attemptOf event endpoint n).exhausted cfg (replies n).result = false := by
    rw [Delivery.exhausted, failed.2, Bool.false_or, decide_eq_false_iff_not, not_le]
    exact more
  rw [failed.1, if_neg (by simp), retryOrBury, if_neg (by rw [again]; simp)] at run
  have polled : (st₁.redis.schedule (attemptOf event endpoint n).nextMember
      (attemptOf event endpoint n).nextMessage retryAfter).pollDue now = [messageOf event endpoint (n + 1)] :=
    RedisRetryScheduler.pollDue_schedule underway.zset due
  have emptied := RedisRetryScheduler.cancel_schedule (attemptOf event endpoint n).nextMember
    (attemptOf event endpoint n).nextMessage retryAfter underway.zset underway.data
  rw [Pipeline.round, pending, consume_single, run, Option.bind_eq_bind, Option.bind_some]
  refine ⟨_, rfl, ?_⟩
  dsimp only [Store.log]
  rw [polled]
  refine ⟨⟨⟨emptied.1, emptied.2, ?_, underway.attempts, underway.dlq, underway.endpoints, underway.events,
    underway.issued⟩, p.offset, rfl⟩, List.mem_cons_self⟩
  rw [← underway.posts]
  simp [republish, messageOf, Store.posts, Happening.post]

/-- The round of the last attempt. -/
theorem Waiting.finish (retryAfter now : Nat) (new : NewEvent st event endpoint dlqId)
    (running : ∀ i < n, (replies i).result.final = false) (waiting : Waiting replies event endpoint st n p)
    (last : (replies n).result.final = true ∨ cfg.maxRetryAttempts ≤ ((n + 1 : Nat) : Int)) :
    ∃ p', p.round cfg (answers replies dlqId retryAfter) now = some p' ∧
      Finished cfg replies event endpoint dlqId st n p' := by
  obtain ⟨offset, pending⟩ := waiting.pending
  obtain ⟨st₁, underway, run⟩ := waiting.underway.attempt cfg
    (r := ⟨0, offset, messageOf event endpoint n⟩) new running rfl retryAfter
  rw [← consume_single, ← pending] at run
  by_cases done : (replies n).result.succeeded = true
  · rw [if_pos done] at run
    refine ⟨_, round_quiet run underway.zset, rfl, underway.zset, underway.data, underway.posts,
      underway.attempts, ?_⟩
    rw [deadLetterOf, if_pos done, List.append_nil]
    exact underway.dlq
  · have exhausted : (attemptOf event endpoint n).exhausted cfg (replies n).result = true := by
      rw [Delivery.exhausted, Bool.or_eq_true, decide_eq_true_eq]
      obtain final | limit := last
      · rw [HttpResult.final, Bool.or_eq_true] at final
        exact .inl (final.resolve_left done)
      · exact .inr limit
    have fresh : dlqId ∉ st₁.db.issued := by
      rw [underway.issued]
      exact new.dlqId
    have buries : ∃ st₂, retryOrBury cfg st₁ ⟨(replies n).result, dlqId, retryAfter⟩ (attemptOf event endpoint n)
        (replies n).result = some st₂ :=
      retryOrBury_returns (underway.eventId_mem new) (underway.endpointId_mem new) fresh
    obtain ⟨st₂, buried⟩ := buries
    rw [if_neg done, buried] at run
    rw [retryOrBury, if_pos exhausted] at buried
    obtain ⟨db, rfl, ⟨taken, -⟩ | ⟨-, tables⟩⟩ := moveToDlq_cases buried
    · exact absurd taken (underway.no_dlq new)
    · have emptied := RedisRetryScheduler.cancel_empty (k := (attemptOf event endpoint n).member)
        underway.zset underway.data
      refine ⟨_, round_quiet run emptied.1, rfl, emptied.1, emptied.2, underway.posts, ?_, ?_⟩
      · dsimp only
        rw [tables]
        exact underway.attempts
      · dsimp only
        rw [tables, deadLetterOf, if_neg done, ← underway.dlq]
        rfl

/-- A pipeline that has come to its end stays there. -/
theorem Finished.round (retryAfter now : Nat) {k : Nat}
    (finished : Finished cfg replies event endpoint dlqId st k p) :
    ∃ p', p.round cfg (answers replies dlqId retryAfter) now = some p' ∧
      Finished cfg replies event endpoint dlqId st k p' := by
  have consumed : consume cfg (answers replies dlqId retryAfter) p.store p.pending = some p.store := by
    rw [finished.pending, consume]
  exact ⟨_, round_quiet consumed finished.zset, rfl, finished.zset, finished.data, finished.posts,
    finished.attempts, finished.dlq⟩

variable (clock) in
/-- Until the last attempt each round makes one. -/
theorem rounds_waiting (new : NewEvent st event endpoint dlqId) (settings : cfg.maxRetryAttempts = limit)
    (running : ∀ i < t, (replies i).result.final = false) (below : t < limit) :
    ∃ p, rounds cfg replies dlqId clock st event.id t = some p ∧ Waiting replies event endpoint st t p := by
  induction t with
  | zero =>
    refine ⟨_, rfl, ⟨new.zset, new.data, ?_, ?_, rfl, rfl, rfl, rfl⟩, 0, rfl⟩
    · dsimp only
      rw [Store.posts, new.history]
      rfl
    · exact (List.append_nil _).symm
  | succ t ih =>
    have before : ∀ i < t, (replies i).result.final = false := fun i hi => running i (Nat.lt_succ_of_lt hi)
    obtain ⟨p, run, waiting⟩ := ih before (Nat.lt_of_succ_lt below)
    have more : ((t + 1 : Nat) : Int) < cfg.maxRetryAttempts := by
      rw [settings]
      exact_mod_cast below
    obtain ⟨p', next, waiting', -⟩ := waiting.again new before (running t (Nat.lt_succ_self t)) more (clock.due t)
    refine ⟨p', ?_, waiting'⟩
    rw [rounds, run]
    exact next

/-- The retries of a new event with one matching endpoint end with its last attempt, and leave a POST and a
row for each attempt and a dead letter if the last one is no success. -/
theorem retry_chain (new : NewEvent st event endpoint dlqId) (settings : cfg.maxRetryAttempts = limit)
    (pos : 0 < limit) (past : lastAttempt replies limit < t) :
    ∃ p, rounds cfg replies dlqId clock st event.id t = some p ∧
      Finished cfg replies event endpoint dlqId st (lastAttempt replies limit) p := by
  obtain ⟨below, running, last⟩ := lastAttempt_spec replies pos
  induction t, past using Nat.le_induction with
  | base =>
    obtain ⟨p, run, waiting⟩ := rounds_waiting clock new settings running below
    have last : (replies (lastAttempt replies limit)).result.final = true ∨
        cfg.maxRetryAttempts ≤ ((lastAttempt replies limit + 1 : Nat) : Int) := by
      refine last.imp_right fun same => ?_
      rw [settings, same]
    obtain ⟨p', next, finished⟩ := waiting.finish (clock.retryAfter (lastAttempt replies limit))
      (clock.tick (lastAttempt replies limit)) new running last
    refine ⟨p', ?_, finished⟩
    rw [rounds, run]
    exact next
  | succ t _ ih =>
    obtain ⟨p, run, finished⟩ := ih
    obtain ⟨p', next, finished'⟩ := finished.round (clock.retryAfter t) (clock.tick t)
    refine ⟨p', ?_, finished'⟩
    rw [rounds, run]
    exact next

end

/-- The sample event and its one endpoint. -/
def soloTables : Tables where
  endpoints := [sampleEndpoint.endpoint (.ofNat 1)]
  events := [sampleEvent.event (.ofNat 2)]
  issued := [.ofNat 1, .ofNat 2]

theorem soloTables_valid : soloTables.Valid := by
  constructor <;> decide

def soloStore : Store := { initial.store with db := ⟨soloTables, soloTables_valid⟩ }

theorem soloStore_new :
    NewEvent soloStore (sampleEvent.event (.ofNat 2)) (sampleEndpoint.endpoint (.ofNat 1)) (.ofNat 3) := by
  constructor <;> first | rfl | decide

/-- A 503, a timeout, and 404 from then on. -/
def thirdTimeGone : Nat → StoredReply
  | 0 => ⟨.response 503 [], rfl⟩
  | 1 => ⟨.timeout, rfl⟩
  | _ + 2 => ⟨.response 404 [], rfl⟩

/-- Every tick comes a thousand after the one before, and every retry is due at once. -/
def promptClock : Clock := ⟨fun t => 1000 * t, fun t => 1000 * t, fun _ => Nat.le_refl _⟩

theorem gone_ends_chain : lastAttempt thirdTimeGone 15 = 2 ∧
    ∃ p, rounds {} thirdTimeGone (.ofNat 3) promptClock soloStore (.ofNat 2) 3 = some p ∧
      Finished {} thirdTimeGone (sampleEvent.event (.ofNat 2)) (sampleEndpoint.endpoint (.ofNat 1)) (.ofNat 3)
        soloStore 2 p :=
  ⟨by decide, retry_chain soloStore_new rfl (by decide : 0 < 15) (by decide)⟩

end HookRelay
