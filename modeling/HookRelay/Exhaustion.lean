import HookRelay.Lib.Slots
import HookRelay.Lib.Weights
import HookRelay.Recovery

/-!
# Left to itself, the deployment comes to an end

Without new requests, and as long as no process starts or dies and no partition moves, the workers can only do what is
there to be done: every step that changes anything takes more from the work ahead than it adds to it. A failed delivery
adds a retry with a higher number, of which there are only so many; a retry can be polled by every scheduler, and each
copy of it be fetched by every worker that has the partition, but only once by each of them.
-/

namespace HookRelay

open Weights (total)

/-- A step of the workers, or of a request that is open. -/
def Action.own : Action → Bool
  | .request _ _ | .relay _ _ | .scheduler _ _ | .task _ _ | .finish _ _ => true
  | .loop (.getmany _ _) | .loop (.start _) | .loop (.commitApply _) | .loop (.commitDrop _) => true
  | _ => false

/-- Such a step that is not idle. -/
abbrev Busy (cfg : Settings) (s : State) (a : Action) : Prop := a.own = true ∧ s.step cfg a ≠ some s

/-! ## The work ahead -/

/-- How often a delivery under the number `n` can still be retried. -/
def Settings.retriesLeft (cfg : Settings) (n : Nat) : Nat := (cfg.maxRetryAttempts - 1 - (n : Int)).toNat

section Work

variable (W E : Nat)

/-- The work a retry stands for that can be retried `b` times itself: each of the `W` schedulers may publish it, each
copy may be fetched by `W` workers, and a call delivers to at most `E + 1` endpoints. -/
def retryWork : Nat → Nat
  | 0 => 0
  | b + 1 => W * (W * (5 + (E + 1) * (6 + retryWork b)) + 3)

/-- A delivery from its check on. -/
def deliveryWork (b : Nat) : Nat := 6 + retryWork W E b

/-- A call from its start on. -/
def callWork (b : Nat) : Nat := 3 + (E + 1) * deliveryWork W E b

/-- A record that one worker has not fetched yet, -/
def fetchWork (b : Nat) : Nat := callWork W E b + 2

/-- that no worker has fetched, -/
def recordWork (b : Nat) : Nat := W * fetchWork W E b

/-- a message in the hands of a scheduler, -/
def messageWork (b : Nat) : Nat := recordWork W E b + 2

/-- and a retry in Redis that one scheduler has not polled. -/
def entryWork (b : Nat) : Nat := messageWork W E b + 1

theorem retryWork_succ (b : Nat) : retryWork W E (b + 1) = W * entryWork W E b := by
  have fetch : 5 + (E + 1) * (6 + retryWork W E b) = fetchWork W E b := by
    rw [fetchWork, callWork, deliveryWork]
    omega
  rw [retryWork, fetch, entryWork, messageWork, recordWork]

variable (cfg : Settings)

/-- What is left of a delivery, and the deliveries after it. -/
def Delivery.work (d : Delivery) : Nat :=
  let b := cfg.retriesLeft d.attemptNumber
  (match d.stage with
    | .checking => deliveryWork W E b
    | .posting => 5 + retryWork W E b
    | .recording _ => 4 + retryWork W E b
    | .failed _ => 3 + retryWork W E b
    | .cancelling => 2
    | .notifying => 1) + d.rest.length * deliveryWork W E b + 2

def Task.work (t : Task Message Call) : Nat :=
  match t.data with
  | .resolving => callWork W E (cfg.retriesLeft t.record.value.attempt)
  | .delivering d => d.work W E cfg
  | .finished => 2

/-- The worker has the partition and has not come to the record. -/
def Worker.awaits (worker : Worker Message) (r : Record Message) : Bool :=
  (worker.positions r.partition).any (· ≤ r.offset)

def Worker.awaited (worker : Worker Message) (r : Record Message) : Nat :=
  if worker.awaits r then fetchWork W E (cfg.retriesLeft r.value.attempt) else 0

/-- The records that the worker has still to fetch, and those that it has still to start. -/
def Worker.work (log : List (Record Message)) (worker : Worker Message) : Nat :=
  total (worker.awaited W E cfg) log +
    total (fun r => callWork W E (cfg.retriesLeft r.value.attempt) + 1) worker.batch

/-- The messages in hand. -/
def Scheduler.held (sch : Scheduler) : Nat :=
  match sch with
  | .idle => 0
  | .due ms => total (fun m => messageWork W E (cfg.retriesLeft m.attempt)) ms
  | .cancelling _ rest => 1 + total (fun m => messageWork W E (cfg.retriesLeft m.attempt)) rest

/-- A retry in Redis, unless its message is in hand. -/
def Member.work (ms : List Message) (k : Member) : Nat :=
  if k.message ∈ ms then 0 else entryWork W E (cfg.retriesLeft k.attemptNumber)

def Scheduler.work (ks : List Member) (sch : Scheduler) : Nat :=
  sch.held W E cfg + total (Member.work W E cfg sch.messages) ks

def Relay.work : Relay → Nat
  | .idle => 0
  | .batch todo _ => todo.length * (recordWork W E (cfg.retriesLeft 0) + 1) + 1

/-- A row that no relay has locked. -/
def OutboxEntry.work (relays : List Relay) (o : OutboxEntry) : Nat :=
  if relays.all fun relay => relay.locked.all (·.id ≠ o.id) then recordWork W E (cfg.retriesLeft 0) + 3 else 0

def Request.work (q : Request) : Nat :=
  match q.stage with
  | .locked => recordWork W E (cfg.retriesLeft 0) + 3
  | .published _ => 2
  | .deleted _ _ => 1
  | .committed _ _ | .aborted => 0

/-- The records to fetch and to start, the calls, and the commit requests in transit. -/
def ConsumerGroup.work (g : ConsumerGroup Message Call) : Nat :=
  total (Worker.work W E cfg g.log) g.workers + total (Task.work W E cfg) g.tasks + g.commits.length

def retriesWork (q : RedisRetryScheduler) (schedulers : List Scheduler) : Nat :=
  total (Scheduler.work W E cfg q.zset.keys) schedulers

def outboxWork (outbox : List OutboxEntry) (relays : List Relay) : Nat :=
  total (Relay.work W E cfg) relays + total (OutboxEntry.work W E cfg relays) outbox

/-- All the work there is. -/
def State.work (s : State) : Nat :=
  s.group.work W E cfg + retriesWork W E cfg s.store.redis s.schedulers +
    outboxWork W E cfg s.store.db.outbox s.relays + total (Request.work W E cfg) s.store.requests

end Work

/-- The deployment has at most `W` processes and `E` endpoints. -/
structure State.Within (W E : Nat) (s : State) : Prop where
  workers : s.group.workers.length ≤ W
  schedulers : s.schedulers.length ≤ W
  endpoints : s.store.db.endpoints.length ≤ E

section Steps

variable {W E : Nat} {cfg : Settings} {s s' : State}

/-! ## Records -/

variable (W E cfg) in
/-- A record that is published may be fetched by every worker. -/
theorem workers_append (log : List (Record Message)) {workers : List (Worker Message)} (few : workers.length ≤ W)
    (r : Record Message) : total (Worker.work W E cfg (log ++ [r])) workers ≤
      total (Worker.work W E cfg log) workers + recordWork W E (cfg.retriesLeft r.value.attempt) := by
  have each : ∀ worker ∈ workers, Worker.work W E cfg (log ++ [r]) worker ≤
      Worker.work W E cfg log worker + fetchWork W E (cfg.retriesLeft r.value.attempt) := by
    intro worker _
    simp only [Worker.work, Weights.total_append, Weights.total_cons, Weights.total_nil, Worker.awaited]
    split <;> omega
  have all := Weights.total_le_add each
  have bound := Nat.mul_le_mul_right (fetchWork W E (cfg.retriesLeft r.value.attempt)) few
  rw [recordWork]
  omega

variable (W E cfg) in
theorem append_work {group : ConsumerGroup Message Call} {p o : Nat} {m : Message} (within : s.Within W E)
    (appended : s.group.append ⟨p, o, m⟩ = some group) :
    group.work W E cfg ≤ s.group.work W E cfg + recordWork W E (cfg.retriesLeft m.attempt) := by
  have workers : total (Worker.work W E cfg (s.group.log ++ [⟨p, o, m⟩])) s.group.workers ≤
      total (Worker.work W E cfg s.group.log) s.group.workers + recordWork W E (cfg.retriesLeft m.attempt) :=
    workers_append W E cfg s.group.log within.workers ⟨p, o, m⟩
  rw [(ConsumerGroup.append_eq_some appended).1]
  simp only [ConsumerGroup.work]
  omega

theorem Worker.awaits_seek {worker : Worker Message} {r r' : Record Message} {position : Nat}
    (here : worker.positions r.partition = some position) (ahead : position ≤ r.offset)
    (waits : (worker.seek r.partition (some (r.offset + 1))).awaits r' = true) :
    worker.awaits r' = true ∧ r' ≠ r := by
  by_cases same : r'.partition = r.partition
  · simp only [Worker.awaits, Worker.seek, same, Function.update_self, Option.any_some, decide_eq_true_eq] at waits
    constructor
    · simp only [Worker.awaits, same, here, Option.any_some, decide_eq_true_eq]
      omega
    · rintro rfl
      omega
  · simp only [Worker.awaits, Worker.seek, Function.update_of_ne same] at waits
    exact ⟨waits, fun eq => same (eq ▸ rfl)⟩

variable (W E cfg) in
/-- A record that is fetched is not awaited any more. -/
theorem fetch_work {log : List (Record Message)} {worker worker' : Worker Message} {r : Record Message}
    (hf : ConsumerGroup.fetch log worker r = some worker') :
    Worker.work W E cfg log worker' + 1 ≤ Worker.work W E cfg log worker := by
  unfold ConsumerGroup.fetch at hf
  split at hf
  · cases hf
  · rename_i position here
    simp only [Option.ite_none_right_eq_some, Option.some.injEq] at hf
    obtain ⟨⟨present, ahead, -⟩, rfl⟩ := hf
    let moved : Worker Message := worker.seek r.partition (some (r.offset + 1))
    have fewer : ∀ r' ∈ log, moved.awaited W E cfg r' ≤ worker.awaited W E cfg r' := by
      intro r' _
      unfold Worker.awaited
      cases waits : moved.awaits r' with
      | false => exact Nat.zero_le _
      | true => rw [if_pos (Worker.awaits_seek here ahead waits).1, if_pos rfl]
    have gone : moved.awaited W E cfg r = 0 := by
      refine if_neg fun waits => ?_
      exact (Worker.awaits_seek here ahead waits).2 rfl
    have awaited : worker.awaited W E cfg r = fetchWork W E (cfg.retriesLeft r.value.attempt) := by
      refine if_pos ?_
      rw [Worker.awaits, here]
      exact decide_eq_true ahead
    have less := Weights.total_add_le (d := fun _ => fetchWork W E (cfg.retriesLeft r.value.attempt)) fewer
      (List.singleton_subperm_iff.2 present) (by
        intro r' hr'
        rw [List.mem_singleton.1 hr', gone, awaited, Nat.zero_add])
    rw [Weights.total_cons, Weights.total_nil, fetchWork] at less
    show total (moved.awaited W E cfg) log + total _ (worker.batch ++ [r]) + 1 ≤ _
    rw [Worker.work, Weights.total_append, Weights.total_cons, Weights.total_nil]
    omega

variable (W E cfg) in
theorem fetchAll_work {log : List (Record Message)} {records : List (Record Message)} :
    ∀ {worker worker' : Worker Message}, ConsumerGroup.fetchAll log worker records = some worker' →
      Worker.work W E cfg log worker' + records.length ≤ Worker.work W E cfg log worker := by
  induction records with
  | nil =>
    intro worker worker' hf
    cases hf
    exact Nat.le_refl _
  | cons r records ih =>
    intro worker worker' hf
    obtain ⟨worker₁, first, rest⟩ := Option.bind_eq_some_iff.1 hf
    have one := fetch_work W E cfg first
    have others := ih rest
    rw [List.length_cons]
    omega

/-! ## Calls -/

theorem deliverNext_work {worker : Nat} {r : Record Message} {event : Event} {n : Nat} {ps : List Endpoint} :
    Task.work W E cfg ⟨worker, r, deliverNext event n ps⟩ =
      ps.length * deliveryWork W E (cfg.retriesLeft n) + 2 := by
  cases ps with
  | nil => simp [Task.work, deliverNext]
  | cons q ps =>
    show deliveryWork W E (cfg.retriesLeft n) + ps.length * deliveryWork W E (cfg.retriesLeft n) + 2 = _
    rw [List.length_cons, Nat.succ_mul]
    omega

variable (W E cfg) in
theorem Task.two_le_work (t : Task Message Call) : 2 ≤ Task.work W E cfg t := by
  unfold Task.work
  split
  · rw [callWork]
    omega
  · rw [Delivery.work]
    omega
  · exact Nat.le_refl 2

/-- A message has no more targets than there are endpoints, or the one it names. -/
theorem targets_length (db : Tables) (event : Event) (m : Message) :
    (targets db event m).length ≤ db.endpoints.length + 1 := by
  unfold targets
  split
  · rename_i endpointId _
    have one : (db.getEndpoint endpointId).toList.length ≤ 1 := by cases db.getEndpoint endpointId <;> simp
    exact (List.length_filter_le _ _).trans (one.trans (Nat.le_add_left 1 _))
  · exact (List.length_filter_le _ _).trans (Nat.le_succ _)

theorem resolve_work {worker : Nat} {r : Record Message} {db : Tables} (few : db.endpoints.length ≤ E) :
    Task.work W E cfg ⟨worker, r, resolveTargets db r.value⟩ < callWork W E (cfg.retriesLeft r.value.attempt) := by
  rw [callWork]
  unfold resolveTargets
  split
  · show 2 < _
    omega
  · rename_i event _
    rw [deliverNext_work]
    have targeted := targets_length db event r.value
    have bound := Nat.mul_le_mul_right (deliveryWork W E (cfg.retriesLeft r.value.attempt))
      (targeted.trans (Nat.add_le_add_right few 1))
    omega

/-! ## Retries -/

variable (W E cfg) in
/-- Fewer retries are less work. -/
theorem fewer_retries {ks ks' : List Member} (sub : ks'.Sublist ks) (schedulers : List Scheduler) :
    total (Scheduler.work W E cfg ks') schedulers ≤ total (Scheduler.work W E cfg ks) schedulers := by
  refine Weights.total_le fun sch _ => ?_
  exact Nat.add_le_add_left (Weights.total_sublist sub) _

variable (W E cfg) in
/-- One more retry may be polled by every scheduler. -/
theorem scheduled_work {q : RedisRetryScheduler} {schedulers : List Scheduler} (few : schedulers.length ≤ W)
    (k : Member) (m : Message) (retryAfter : Nat) :
    total (Scheduler.work W E cfg (q.schedule k m retryAfter).zset.keys) schedulers ≤
      total (Scheduler.work W E cfg q.zset.keys) schedulers + W * entryWork W E (cfg.retriesLeft k.attemptNumber) := by
  have keys : (q.schedule k m retryAfter).zset.keys = k :: q.zset.keys.erase k :=
    AList.keys_insert q.zset
  have each : ∀ sch ∈ schedulers, Scheduler.work W E cfg (k :: q.zset.keys.erase k) sch ≤
      Scheduler.work W E cfg (q.zset.keys.erase k) sch + entryWork W E (cfg.retriesLeft k.attemptNumber) := by
    intro sch _
    rw [Scheduler.work, Scheduler.work, Weights.total_cons, Member.work]
    split <;> omega
  have all := Weights.total_le_add each
  have fewer := fewer_retries W E cfg (List.erase_sublist (a := k) (l := q.zset.keys)) schedulers
  have bound := Nat.mul_le_mul_right (entryWork W E (cfg.retriesLeft k.attemptNumber)) few
  rw [keys]
  omega

theorem cancelled_keys (q : RedisRetryScheduler) (k : Member) : (q.cancel k).zset.keys.Sublist q.zset.keys := by
  show (q.zset.erase k).keys.Sublist _
  rw [AList.keys_erase]
  exact List.erase_sublist

theorem Settings.retriesLeft_succ {d : Delivery} {result : HttpResult} (left : d.exhausted cfg result = false) :
    cfg.retriesLeft d.attemptNumber = cfg.retriesLeft (d.attemptNumber + 1) + 1 := by
  simp only [Delivery.exhausted, Bool.or_eq_false_iff, decide_eq_false_iff_not] at left
  rw [Settings.retriesLeft, Settings.retriesLeft]
  omega

/-- Each step of a call takes from its work, the retry that it schedules included. -/
theorem Moves.takes {st st' : Store} {r : Record Message} {c c' : Call} {b : TaskAction} {worker : Nat}
    {schedulers : List Scheduler} (h : Moves cfg st r c b st' c') (few : st.db.endpoints.length ≤ E)
    (processes : schedulers.length ≤ W) :
    total (Scheduler.work W E cfg st'.redis.zset.keys) schedulers + Task.work W E cfg ⟨worker, r, c'⟩ <
      total (Scheduler.work W E cfg st.redis.zset.keys) schedulers + Task.work W E cfg ⟨worker, r, c⟩ := by
  have next : ∀ d : Delivery, Task.work W E cfg ⟨worker, r, d.next⟩ =
      d.rest.length * deliveryWork W E (cfg.retriesLeft d.attemptNumber) + 2 := fun d => deliverNext_work
  have goto : ∀ (d : Delivery) stage, Task.work W E cfg ⟨worker, r, d.goto stage⟩ =
      Delivery.work W E cfg { d with stage } := fun _ _ => rfl
  have here : ∀ d : Delivery, Task.work W E cfg ⟨worker, r, .delivering d⟩ = d.work W E cfg := fun _ => rfl
  cases h with
  | resolve => exact Nat.add_lt_add_left (resolve_work few) _
  | skip stage | notify stage | notifyFailed stage =>
    simp only [next, here, Delivery.work, stage, deliveryWork]
    omega
  | pass stage | post stage | dlqConflict stage | insertDlq stage | cancelFailed stage =>
    simp only [goto, here, Delivery.work, stage, deliveryWork, Store.log]
    omega
  | conflict stage | record stage =>
    simp only [here, Delivery.work, stage, Store.log]
    split
    · rw [next]
      omega
    · rw [goto, Delivery.work]
      simp only
      omega
  | @schedule d result retryAfter stage left =>
    -- The retry that is scheduled is one of those that were left.
    have added := scheduled_work W E cfg (q := st.redis) processes d.nextMember d.nextMessage retryAfter
    have number : d.nextMember.attemptNumber = d.attemptNumber + 1 := rfl
    have retries := retryWork_succ W E (cfg.retriesLeft (d.attemptNumber + 1))
    rw [number] at added
    simp only [next, here, Delivery.work, stage, Store.log, deliveryWork]
    rw [Settings.retriesLeft_succ left, retries]
    omega
  | @cancel d stage =>
    have fewer := fewer_retries W E cfg (cancelled_keys st.redis d.member) schedulers
    simp only [goto, here, Delivery.work, stage]
    omega

/-! ## Schedulers -/

theorem Scheduler.held_next (ms : List Message) : Scheduler.held W E cfg (.next ms) =
    total (fun m => messageWork W E (cfg.retriesLeft m.attempt)) ms := by
  cases ms <;> rfl

theorem nodup_dueMembers (zset : AList fun _ : Member => Nat) (now batch : Nat) :
    (RedisRetryScheduler.dueMembers zset now batch).Nodup := by
  have keys : ((zset.entries.filter (·.2 ≤ now)).map (·.1)).Nodup :=
    List.NodupKeys.sublist List.filter_sublist zset.nodupKeys
  rw [RedisRetryScheduler.dueMembers, List.map_take]
  exact ((List.perm_insertionSort _ _).map _).nodup_iff.2 keys |>.sublist (List.take_sublist _ _)

theorem dueMembers_subset (zset : AList fun _ : Member => Nat) (now batch : Nat) :
    RedisRetryScheduler.dueMembers zset now batch ⊆ zset.keys := by
  intro k hk
  obtain ⟨t, found, -⟩ := RedisRetryScheduler.mem_dueMembers hk
  exact AList.mem_keys.1 (AList.lookup_isSome.1 (by rw [found]; rfl))

variable (W E cfg) in
/-- The retries that a scheduler has polled are in its hands. -/
theorem polled_work {ks keys : List Member} (nodup : ks.Nodup) (sub : ks ⊆ keys) :
    Scheduler.work W E cfg keys (.next (ks.map Member.message)) + ks.length ≤ Scheduler.work W E cfg keys .idle := by
  have none : ∀ k, Member.work W E cfg [] k = entryWork W E (cfg.retriesLeft k.attemptNumber) := fun k =>
    if_neg List.not_mem_nil
  have taken : total (Member.work W E cfg (ks.map Member.message)) keys + total (Member.work W E cfg []) ks ≤
      total (Member.work W E cfg []) keys := by
    refine Weights.total_add_le (fun k _ => ?_) (nodup.subperm sub) fun k hk => ?_
    · rw [none, Member.work]
      split <;> omega
    · rw [Member.work, if_pos (List.mem_map_of_mem hk), Nat.zero_add]
  have hands : total (fun m => messageWork W E (cfg.retriesLeft m.attempt)) (ks.map Member.message) + ks.length =
      total (Member.work W E cfg []) ks := by
    clear taken nodup sub
    induction ks with
    | nil => rfl
    | cons k ks ih =>
      have number : k.message.attempt = k.attemptNumber := rfl
      rw [List.map_cons, Weights.total_cons, Weights.total_cons, List.length_cons, number, none, entryWork]
      omega
  have idle : Scheduler.work W E cfg keys .idle = total (Member.work W E cfg []) keys := Nat.zero_add _
  rw [idle, Scheduler.work, Scheduler.held_next, Scheduler.next_messages]
  omega

variable (W E cfg) in
/-- A message that a scheduler publishes stays in its hands until it is cancelled. -/
theorem publishing_work (keys : List Member) (m : Message) (rest : List Message) :
    Scheduler.work W E cfg keys (.cancelling m rest) + recordWork W E (cfg.retriesLeft m.attempt) <
      Scheduler.work W E cfg keys (.due (m :: rest)) := by
  simp only [Scheduler.work, Scheduler.held, Scheduler.messages, Weights.total_cons, messageWork]
  omega

variable (W E cfg) in
/-- A message leaves the hands of a scheduler when its retry is gone. -/
theorem dropped_work {keys : List Member} {m : Message} (rest : List Message) (gone : ∀ k ∈ keys, k.message ≠ m) :
    Scheduler.work W E cfg keys (.next rest) < Scheduler.work W E cfg keys (.cancelling m rest) ∧
      Scheduler.work W E cfg keys (.next rest) < Scheduler.work W E cfg keys (.due (m :: rest)) := by
  have same : total (Member.work W E cfg rest) keys ≤ total (Member.work W E cfg (m :: rest)) keys := by
    refine Weights.total_le fun k hk => ?_
    unfold Member.work
    by_cases held : k.message ∈ rest
    · rw [if_pos held]
      exact Nat.zero_le _
    · rw [if_neg held, if_neg fun mem => held ((List.mem_cons.1 mem).resolve_left (gone k hk))]
  simp only [Scheduler.work, Scheduler.held_next, Scheduler.next_messages]
  simp only [Scheduler.held, Scheduler.messages, Weights.total_cons, messageWork]
  constructor <;> omega

/-! ## Relays -/

/-- A row that is free after a relay has changed was free before, if the relay has not let go of it. -/
theorem free_set {relays : List Relay} {w : Nat} {old new : Relay} {o : OutboxEntry} (found : relays[w]? = some old)
    (keeps : (∀ x ∈ new.locked, x.id ≠ o.id) → ∀ x ∈ old.locked, x.id ≠ o.id)
    (free : ((relays.set w new).all fun relay => relay.locked.all (·.id ≠ o.id)) = true) :
    (relays.all fun relay => relay.locked.all (·.id ≠ o.id)) = true := by
  simp only [List.all_eq_true, decide_eq_true_eq] at free ⊢
  intro relay hr
  by_cases same : relay = old
  · subst same
    exact keeps (free new (List.mem_set (List.getElem?_eq_some_iff.1 found).1 new))
  · exact free relay (Slots.mem_set_of_ne found hr same)

/-- Whatever locks rows leaves less work in the outbox. -/
theorem locked_work {relays relays' : List Relay} {rows rows' : List OutboxEntry} (sub : rows'.Sublist rows)
    (locks : ∀ o ∈ rows', (relays'.all fun relay => relay.locked.all (·.id ≠ o.id)) = true →
      (relays.all fun relay => relay.locked.all (·.id ≠ o.id)) = true) :
    total (OutboxEntry.work W E cfg relays') rows' ≤ total (OutboxEntry.work W E cfg relays) rows := by
  refine (Weights.total_le fun o ho => ?_).trans (Weights.total_sublist sub)
  unfold OutboxEntry.work
  split
  · rw [if_pos (locks o ho ‹_›)]
  · exact Nat.zero_le _

variable (W E cfg) in
/-- A relay that locks rows has to publish each of them. -/
theorem select_work {outbox rows : List OutboxEntry} {relays : List Relay} {w : Nat} (found : relays[w]? = some .idle)
    (sub : rows.Sublist (outbox.filter fun o => relays.all fun relay => relay.locked.all (·.id ≠ o.id)))
    (some_rows : rows ≠ []) :
    outboxWork W E cfg outbox (relays.set w (.batch rows [])) < outboxWork W E cfg outbox relays := by
  have locked : total (OutboxEntry.work W E cfg (relays.set w (.batch rows []))) outbox +
      total (fun _ => recordWork W E (cfg.retriesLeft 0) + 3) rows ≤
        total (OutboxEntry.work W E cfg relays) outbox := by
    refine Weights.total_add_le (fun o _ => ?_) (sub.trans List.filter_sublist).subperm fun o ho => ?_
    · unfold OutboxEntry.work
      split
      · rw [if_pos (free_set found (fun _ x hx => by cases hx) ‹_›)]
      · exact Nat.zero_le _
    · have taken : OutboxEntry.work W E cfg (relays.set w (.batch rows [])) o = 0 := by
        refine if_neg fun free => ?_
        have batch := List.all_eq_true.1 free _ (List.mem_set (List.getElem?_eq_some_iff.1 found).1 _)
        have own := List.all_eq_true.1 batch o (List.mem_append_left _ ho)
        exact of_decide_eq_true own rfl
      have free : OutboxEntry.work W E cfg relays o = recordWork W E (cfg.retriesLeft 0) + 3 :=
        if_pos (List.mem_filter.1 (sub.subset ho)).2
      rw [taken, free, Nat.zero_add]
  have batch := Weights.total_set (f := Relay.work W E cfg) found (.batch rows [])
  have cost : rows.length * (recordWork W E (cfg.retriesLeft 0) + 3) =
      rows.length * (recordWork W E (cfg.retriesLeft 0) + 1) + rows.length * 2 := Nat.mul_add _ _ 2
  have length := List.length_pos_iff.2 some_rows
  rw [Weights.total_const] at locked
  simp only [Relay.work] at batch
  rw [outboxWork, outboxWork]
  omega

theorem relay_takes {w : Nat} {b : RelayAction} (within : s.Within W E)
    (hs : s.step cfg (.relay w b) = some s') : s' = s ∨ s'.work W E cfg < s.work W E cfg := by
  obtain ⟨relay, found, hs⟩ := Option.bind_eq_some_iff.1 hs
  cases b with
  | select =>
    cases relay with
    | batch todo done => cases hs
    | idle =>
      simp only at hs
      split at hs
      · exact .inl (Option.some.inj hs).symm
      · rename_i rows some_rows
        cases hs
        refine .inr ?_
        have taken := select_work W E cfg found (List.take_sublist relayBatch _) some_rows
        exact Nat.add_lt_add_right (Nat.add_lt_add_left taken _) _
  | publish p o =>
    cases relay with
    | idle => cases hs
    | batch todo done =>
      cases todo with
      | nil => cases hs
      | cons entry todo =>
        obtain ⟨s₁, published, hs⟩ := Option.bind_eq_some_iff.1 hs
        obtain ⟨group, appended, rfl⟩ := publish_eq_some published
        cases hs
        refine .inr ?_
        have topic := append_work W E cfg within appended
        have batch := Weights.total_set (f := Relay.work W E cfg) found (.batch todo (done ++ [entry]))
        have rows : total (OutboxEntry.work W E cfg (s.relays.set w (.batch todo (done ++ [entry]))))
            s.store.db.outbox ≤ total (OutboxEntry.work W E cfg s.relays) s.store.db.outbox := by
          refine locked_work (.refl _) fun o _ => free_set found fun kept x hx => kept x ?_
          rw [Relay.locked, List.mem_append, List.mem_cons] at hx
          rw [Relay.locked, List.mem_append, List.mem_append, List.mem_singleton]
          tauto
        simp only [Relay.work, List.length_cons, Nat.succ_mul] at batch
        have number : (Message.fanOut entry.eventId).attempt = 0 := rfl
        rw [number] at topic
        show group.work W E cfg + retriesWork W E cfg s.store.redis s.schedulers +
          outboxWork W E cfg s.store.db.outbox (s.relays.set w (.batch todo (done ++ [entry]))) +
            total (Request.work W E cfg) s.store.requests < _
        rw [State.work, outboxWork, outboxWork]
        omega
  | commit =>
    cases relay with
    | idle => cases hs
    | batch todo done =>
      cases todo with
      | cons => cases hs
      | nil =>
        cases hs
        refine .inr ?_
        have batch := Weights.total_set (f := Relay.work W E cfg) found .idle
        have rows : total (OutboxEntry.work W E cfg (s.relays.set w .idle))
            (s.store.db.outbox.filter (·.id ∉ done.map (·.id))) ≤
              total (OutboxEntry.work W E cfg s.relays) s.store.db.outbox := by
          refine locked_work List.filter_sublist fun o ho => free_set found fun _ x hx same => ?_
          have kept := of_decide_eq_true (List.mem_filter.1 ho).2
          exact kept (same ▸ List.mem_map_of_mem hx)
        simp only [Relay.work, List.length_nil, Nat.zero_mul] at batch
        show s.group.work W E cfg + retriesWork W E cfg s.store.redis s.schedulers +
          outboxWork W E cfg (s.store.db.outbox.filter (·.id ∉ done.map (·.id))) (s.relays.set w .idle) +
            total (Request.work W E cfg) s.store.requests < _
        rw [State.work, outboxWork, outboxWork]
        omega

/-! ## Steps -/

theorem request_takes {i : Nat} {b : RequestAction} (within : s.Within W E)
    (hs : Transition cfg s (.request i b) s') : s'.work W E cfg < s.work W E cfg := by
  have set : ∀ (q : Request) stage, s.store.requests[i]? = some q →
      total (Request.work W E cfg) (s.store.requests.set i { q with stage }) + q.work W E cfg =
        total (Request.work W E cfg) s.store.requests + Request.work W E cfg { q with stage } :=
    fun q stage found => Weights.total_set found _
  cases hs with
  | @requestPublish _ p o q group found stage appended =>
    have request := set q (.published ⟨p, o, .fanOut q.eventId⟩) found
    have topic := append_work W E cfg within appended
    have number : (Message.fanOut q.eventId).attempt = 0 := rfl
    simp only [Request.work, stage] at request
    rw [number] at topic
    show group.work W E cfg + retriesWork W E cfg s.store.redis s.schedulers +
      outboxWork W E cfg s.store.db.outbox s.relays + total (Request.work W E cfg) (s.store.requests.set i _) < _
    rw [State.work]
    omega
  | @requestDelete _ q r found stage =>
    have request := set q (.deleted r (State.deletes s.store.db.toTables q)) found
    simp only [Request.work, stage] at request
    refine Nat.add_lt_add_left ?_ _
    show total (Request.work W E cfg) (s.store.requests.set i _) < _
    omega
  | @requestCommit _ q r rows found stage =>
    have request := set q (.committed r rows) found
    simp only [Request.work, stage] at request
    refine Nat.add_lt_add_left ?_ _
    show total (Request.work W E cfg) (s.store.requests.set i _) < _
    omega
  | @requestAbort _ q found opened =>
    have request := set q .aborted found
    have some_work : 0 < q.work W E cfg := by
      cases stage : q.stage <;> simp [Request.isOpen, stage] at opened <;> simp [Request.work, stage]
    have none : Request.work W E cfg { q with stage := .aborted } = 0 := rfl
    refine Nat.add_lt_add_left ?_ _
    show total (Request.work W E cfg) (s.store.requests.set i _) < _
    omega

theorem scheduler_takes {i : Nat} {b : SchedulerAction} (reach : Reachable cfg s) (within : s.Within W E)
    (hs : Transition cfg s (.scheduler i b) s') : s' = s ∨ s'.work W E cfg < s.work W E cfg := by
  have set : ∀ {old : Scheduler} ks new, s.schedulers[i]? = some old →
      total (Scheduler.work W E cfg ks) (s.schedulers.set i new) + old.work W E cfg ks =
        total (Scheduler.work W E cfg ks) s.schedulers + new.work W E cfg ks :=
    fun _ _ found => Weights.total_set found _
  cases hs with
  | @poll _ now found =>
    have members := RedisRetryScheduler.pollDue_members (stored_message reach) now
    have polled := polled_work W E cfg
      (nodup_dueMembers s.store.redis.zset now pollBatch) (dueMembers_subset s.store.redis.zset now pollBatch)
    have scheduler := set s.store.redis.zset.keys (.next (s.store.redis.pollDue now)) found
    rw [members] at scheduler
    by_cases none : RedisRetryScheduler.dueMembers s.store.redis.zset now pollBatch = []
    · refine .inl ?_
      rw [members, none, List.map_nil]
      show { s with schedulers := s.schedulers.set i .idle } = s
      rw [Slots.set_same found]
    · have length := List.length_pos_iff.2 none
      refine .inr (Nat.add_lt_add_right (Nat.add_lt_add_right (Nat.add_lt_add_left ?_ _) _) _)
      show total (Scheduler.work W E cfg s.store.redis.zset.keys) (s.schedulers.set i _) < _
      rw [members, retriesWork]
      omega
  | @schedulerPublish _ p o m rest group found targeted appended =>
    refine .inr ?_
    have topic := append_work W E cfg within appended
    have scheduler := set s.store.redis.zset.keys (.cancelling m rest) found
    have published := publishing_work W E cfg s.store.redis.zset.keys m rest
    show group.work W E cfg + total (Scheduler.work W E cfg s.store.redis.zset.keys) (s.schedulers.set i _) +
      outboxWork W E cfg s.store.db.outbox s.relays + total (Request.work W E cfg) s.store.requests < _
    rw [State.work, retriesWork]
    omega
  | @schedulerCancel _ m endpointId rest found target =>
    let k : Member := ⟨m.eventId, endpointId, m.attempt⟩
    have fewer := fewer_retries W E cfg (cancelled_keys s.store.redis k) s.schedulers
    have scheduler := set (s.store.redis.cancel k).zset.keys (.next rest) found
    have gone : ∀ k' ∈ (s.store.redis.cancel k).zset.keys, k'.message ≠ m := by
      rintro ⟨e, p, n⟩ held rfl
      obtain rfl : p = endpointId := Option.some.inj target
      exact absurd rfl (RedisRetryScheduler.holds_cancel.1 (RedisRetryScheduler.mem_zset_iff.1 held)).1
    have dropped := (dropped_work W E cfg rest gone).1
    refine .inr (Nat.add_lt_add_right (Nat.add_lt_add_right (Nat.add_lt_add_left ?_ _) _) _)
    show total (Scheduler.work W E cfg (s.store.redis.cancel k).zset.keys) (s.schedulers.set i _) < _
    rw [retriesWork]
    omega
  | @schedulerSkip _ m rest found untargeted =>
    have scheduler := set s.store.redis.zset.keys (.next rest) found
    have gone : ∀ k ∈ s.store.redis.zset.keys, k.message ≠ m := by
      rintro k _ rfl
      cases untargeted
    have dropped := (dropped_work W E cfg rest gone).2
    refine .inr (Nat.add_lt_add_right (Nat.add_lt_add_right (Nat.add_lt_add_left ?_ _) _) _)
    show total (Scheduler.work W E cfg s.store.redis.zset.keys) (s.schedulers.set i _) < _
    rw [retriesWork]
    omega

theorem finish_takes {g g' : ConsumerGroup Message Call} {i : Nat} {o : Outcome} (hs : g.finish i o = some g') :
    g'.work W E cfg < g.work W E cfg := by
  simp only [ConsumerGroup.finish, Option.bind_eq_bind, Option.bind_eq_some_iff] at hs
  obtain ⟨t, found, worker, owner, hs⟩ := hs
  have call := Weights.total_eraseIdx (f := Task.work W E cfg) found
  have some_work := t.two_le_work W E cfg
  have same : ∀ worker', worker'.positions = worker.positions → worker'.batch = worker.batch →
      total (Worker.work W E cfg g.log) (g.workers.set t.worker worker') =
        total (Worker.work W E cfg g.log) g.workers := by
    intro worker' positions batch
    have set := Weights.total_set (f := Worker.work W E cfg g.log) owner worker'
    have equal : worker'.work W E cfg g.log = worker.work W E cfg g.log := by
      have awaited : worker'.awaited W E cfg = worker.awaited W E cfg := by
        funext r
        rw [Worker.awaited, Worker.awaited, Worker.awaits, Worker.awaits, positions]
      rw [Worker.work, Worker.work, awaited, batch]
    omega
  split at hs
  · generalize (worker.release.watermarks t.record.partition).done t.record.offset = result at hs
    obtain ⟨watermark, commitAt⟩ := result
    cases hs
    have kept := same (worker.release.setWatermark t.record.partition watermark) rfl rfl
    have commit : (commitAt.map fun offset => (t.record.partition, (offset + 1).toNat)).toList.length ≤ 1 := by
      cases commitAt <;> simp
    simp only [ConsumerGroup.work, List.length_append]
    omega
  · split at hs
    · cases hs
      have kept := same { worker with fatal := true, acquired := worker.acquired - 1 } rfl rfl
      simp only [ConsumerGroup.work, Worker.release]
      omega
    · cases hs
      have kept := same worker.release rfl rfl
      simp only [ConsumerGroup.work]
      omega

theorem loop_takes {b : ConsumerGroup.LoopAction Message} (own : (Action.loop b).own = true)
    (hs : s.step cfg (.loop b) = some s') : s' = s ∨ s'.work W E cfg < s.work W E cfg := by
  obtain ⟨group, stepped, same⟩ := Option.bind_eq_some_iff.1 hs
  cases b with
  | spawn | assign | revoke | crash => cases own
  | getmany w records =>
    obtain ⟨worker, found, stepped⟩ := Option.bind_eq_some_iff.1 stepped
    obtain ⟨-, stepped⟩ := Option.ite_none_right_eq_some.1 stepped
    obtain ⟨worker', fetched, stepped⟩ := Option.bind_eq_some_iff.1 stepped
    cases stepped
    cases same
    cases records with
    | nil =>
      cases fetched
      refine .inl ?_
      show { s with group := { s.group with workers := s.group.workers.set w worker } } = s
      rw [Slots.set_same found]
    | cons r records =>
      have less := fetchAll_work W E cfg fetched
      have set := Weights.total_set (f := Worker.work W E cfg s.group.log) found worker'
      rw [List.length_cons] at less
      refine .inr (Nat.add_lt_add_right (Nat.add_lt_add_right (Nat.add_lt_add_right ?_ _) _) _)
      simp only [ConsumerGroup.work]
      omega
  | start w =>
    obtain ⟨worker, found, stepped⟩ := Option.bind_eq_some_iff.1 stepped
    split at stepped
    · cases stepped
    · rename_i r rest batch
      obtain ⟨-, stepped⟩ := Option.ite_none_right_eq_some.1 stepped
      cases stepped
      cases same
      let started : Worker Message :=
        { worker.acquire.setWatermark r.partition ((worker.watermarks r.partition).start r.offset) with batch := rest }
      have set := Weights.total_set (f := Worker.work W E cfg s.group.log) found started
      have awaited : started.awaited W E cfg = worker.awaited W E cfg := rfl
      have left : started.batch = rest := rfl
      have head : worker.work W E cfg s.group.log = started.work W E cfg s.group.log +
          (callWork W E (cfg.retriesLeft r.value.attempt) + 1) := by
        rw [Worker.work, Worker.work, awaited, left, batch, Weights.total_cons]
        omega
      refine .inr (Nat.add_lt_add_right (Nat.add_lt_add_right (Nat.add_lt_add_right ?_ _) _) _)
      have call : Task.work W E cfg ⟨w, r, .resolving⟩ = callWork W E (cfg.retriesLeft r.value.attempt) := rfl
      show total (Worker.work W E cfg s.group.log) (s.group.workers.set w started) +
        total (Task.work W E cfg) (s.group.tasks ++ [⟨w, r, .resolving⟩]) + s.group.commits.length < _
      rw [ConsumerGroup.work, Weights.total_append, Weights.total_cons, Weights.total_nil]
      omega
  | commitApply i =>
    obtain ⟨c, found, stepped⟩ := Option.bind_eq_some_iff.1 stepped
    cases stepped
    cases same
    have bound := (List.getElem?_eq_some_iff.1 found).1
    refine .inr (Nat.add_lt_add_right (Nat.add_lt_add_right (Nat.add_lt_add_right ?_ _) _) _)
    simp only [ConsumerGroup.work, List.length_eraseIdx, bound, if_true]
    omega
  | commitDrop i =>
    obtain ⟨bound, stepped⟩ := Option.ite_none_right_eq_some.1 stepped
    cases stepped
    cases same
    refine .inr (Nat.add_lt_add_right (Nat.add_lt_add_right (Nat.add_lt_add_right ?_ _) _) _)
    simp only [ConsumerGroup.work, List.length_eraseIdx, bound, if_true]
    omega

theorem task_takes {i : Nat} {b : TaskAction} (within : s.Within W E) (hs : Transition cfg s (.task i b) s') :
    s'.work W E cfg < s.work W E cfg := by
  cases hs with
  | @task _ _ t st c found moved =>
    obtain ⟨worker, record, data⟩ := t
    have call := Weights.total_set (f := Task.work W E cfg) found ⟨worker, record, c⟩
    have takes : retriesWork W E cfg st.redis s.schedulers + Task.work W E cfg ⟨worker, record, c⟩ <
        retriesWork W E cfg s.store.redis s.schedulers + Task.work W E cfg ⟨worker, record, data⟩ :=
      moved.takes within.endpoints within.schedulers
    show ConsumerGroup.work W E cfg { s.group with tasks := s.group.tasks.set i ⟨worker, record, c⟩ } +
      retriesWork W E cfg st.redis s.schedulers + outboxWork W E cfg st.db.outbox s.relays +
        total (Request.work W E cfg) st.requests < _
    rw [moved.outbox_eq, moved.requests_eq]
    simp only [State.work, ConsumerGroup.work]
    omega

/-- Every step of the workers, and of the requests that are open, takes from the work ahead or changes nothing. -/
theorem own_takes {a : Action} (reach : Reachable cfg s) (within : s.Within W E) (own : a.own = true)
    (hs : s.step cfg a = some s') : s' = s ∨ s'.work W E cfg < s.work W E cfg := by
  cases a with
  | request i b => exact .inr (request_takes within (step_transition hs))
  | relay w b => exact relay_takes within hs
  | scheduler w b => exact scheduler_takes reach within (step_transition hs)
  | loop b => exact loop_takes own hs
  | task i b => exact .inr (task_takes within (step_transition hs))
  | finish i o =>
    refine .inr ?_
    cases step_transition hs with
    | finish _ _ _ finished =>
      exact Nat.add_lt_add_right (Nat.add_lt_add_right (Nat.add_lt_add_right (finish_takes finished) _) _) _
  | _ => cases own

theorem State.Within.own {a : Action} (within : s.Within W E) (own : a.own = true) (hs : s.step cfg a = some s') :
    s'.Within W E := by
  obtain ⟨workers, schedulers, endpoints⟩ := within
  have set : ∀ (w : Nat) (sch : Scheduler), (s.schedulers.set w sch).length ≤ W := fun w sch => by
    rwa [List.length_set]
  cases a with
  | request i b =>
    cases step_transition hs with
    | requestPublish _ _ appended =>
      rw [(ConsumerGroup.append_eq_some appended).1]
      exact ⟨workers, schedulers, endpoints⟩
    | _ => exact ⟨workers, schedulers, endpoints⟩
  | relay w b =>
    cases step_transition hs with
    | relayPublish _ appended =>
      rw [(ConsumerGroup.append_eq_some appended).1]
      exact ⟨workers, schedulers, endpoints⟩
    | _ => exact ⟨workers, schedulers, endpoints⟩
  | scheduler w b =>
    cases step_transition hs with
    | schedulerPublish _ _ appended =>
      rw [(ConsumerGroup.append_eq_some appended).1]
      exact ⟨workers, set _ _, endpoints⟩
    | _ => exact ⟨workers, set _ _, endpoints⟩
  | loop b =>
    obtain ⟨group, stepped, same⟩ := Option.bind_eq_some_iff.1 hs
    cases b with
    | spawn | assign | revoke | crash => cases own
    | _ =>
      cases same
      have kept := (ConsumerGroup.loopStep_workers stepped).resolve_left (by simp)
      exact ⟨kept ▸ workers, schedulers, endpoints⟩
  | task i b =>
    cases step_transition hs with
    | task found moved => exact ⟨workers, schedulers, moved.endpoints_eq ▸ endpoints⟩
  | finish i o =>
    cases step_transition hs with
    | finish _ _ _ finished =>
      exact ⟨(ConsumerGroup.finish_workers finished) ▸ workers, schedulers, endpoints⟩
  | _ => cases own

/-- **Left to itself, the deployment comes to an end.** From every reachable state there is a bound on the steps that
change anything, whoever takes them and whatever the endpoints answer, as long as no new request comes in, no process
starts or dies, no partition moves, and no record is appended a second time. -/
theorem left_alone_ends (reach : Reachable cfg s) :
    ∃ n, ∀ as s', Lts.Run (State.step cfg) (Busy cfg) s as s' → as.length ≤ n := by
  have within : s.Within (max s.group.workers.length s.schedulers.length) s.store.db.endpoints.length :=
    ⟨le_max_left _ _, le_max_right _ _, Nat.le_refl _⟩
  generalize max s.group.workers.length s.schedulers.length = W at within
  generalize s.store.db.endpoints.length = E at within
  refine ⟨s.work W E cfg, fun as s' run => ?_⟩
  have bounded := run.length_le (I := fun t => Reachable cfg t ∧ t.Within W E) (m := State.work W E cfg)
    (fun t a t' ht busy hs => by
      refine ⟨⟨ht.1.next trivial hs, ht.2.own busy.1 hs⟩, ?_⟩
      refine (own_takes ht.1 ht.2 busy.1 hs).resolve_left fun same => ?_
      exact busy.2 (same ▸ hs)) ⟨reach, within⟩
  omega

/-- A POST has just been answered with 500. -/
theorem left_alone_ends_after_failure : ∃ s : State, s.group.tasks ≠ [] ∧
    ∃ n, ∀ as s', Lts.Run (State.step {}) (Busy {}) s as s' → as.length ≤ n := by
  obtain ⟨s, run, calls⟩ := Lts.Run.of_check_any (C := fun _ _ => true) (s := initial)
    (p := fun s : State => !s.group.tasks.isEmpty)
    (show (Lts.check (State.step {}) _ _ (samplePublished ++ handOut 0 [sampleRecord 0 (.fanOut (.ofNat 2))] ++
      [.task 0 .resolve, .task 0 .select, .task 0 (.post (.response 500 []))])).any _ = true by decide +kernel)
  rw [Bool.not_eq_true', List.isEmpty_eq_false_iff] at calls
  exact ⟨s, calls, left_alone_ends ⟨_, run.any⟩⟩

end Steps

end HookRelay
