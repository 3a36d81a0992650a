import HookRelay.Lib.Renaming
import HookRelay.ScheduledRetry
import HookRelay.TopicMessages

/-!
# The deployment over bytes

The messages that the processes hand to each other are bytes in Kafka and strings in Redis. Here they are written
where the source writes them and read where it reads them: `publish` encodes, `schedule` and `cancel` render a member,
and a scheduler goes by the values that its `poll_due` has parsed. A step may fail here that the deployment of
`System.lean` takes, when a value cannot be written or is read as another one. No step of a run does.
-/

namespace HookRelay

open PyJson (Value Text)

/-- `run_scheduler` of one worker, over the dicts it has polled. -/
inductive ValueScheduler where
  | idle
  | due (messages : List Value)
  | cancelling (message : Value) (rest : List Value)

def ValueScheduler.next : List Value → ValueScheduler
  | [] => .idle
  | messages => .due messages

/-- The pending topic, the retries in Redis, and the schedulers. -/
structure Wire where
  topic : List (Record (List UInt8)) := []
  redis : RetryStore Nat := .empty
  schedulers : List ValueScheduler := []

/-- The arguments of `schedule` and `cancel`. -/
def Member.key (k : Member) : RetryKey := ⟨k.eventId, k.endpointId, k.attemptNumber⟩

namespace Wire

variable (limit : Nat)

/-- `producer.publish`. -/
def publish (w : Wire) (message : Value) (partition offset : Nat) : Option Wire :=
  (HookRelay.publish limit message).map fun raw => { w with topic := w.topic ++ [⟨partition, offset, raw⟩] }

/-- `scheduler.schedule`. -/
def schedule (w : Wire) (k : RetryKey) (message : Value) (retryAfter : Nat) : Option Wire :=
  (w.redis.schedule limit k message retryAfter).map fun redis => { w with redis }

/-- `scheduler.cancel`. -/
def cancel (w : Wire) (k : RetryKey) : Option Wire :=
  k.render.map fun member => { w with redis := w.redis.cancelScript member }

def setScheduler (w : Wire) (i : Nat) (scheduler : ValueScheduler) : Wire :=
  { w with schedulers := w.schedulers.set i scheduler }

/-- One tick of `run_scheduler`. The ids are read in the dict anew for the cancel. -/
def schedulerStep (w : Wire) (i : Nat) (a : SchedulerAction) : Option Wire := do
  let scheduler ← w.schedulers[i]?
  match a, scheduler with
  | .poll now, .idle =>
    match w.redis.exec (.pollDue now : RetryCall limit Nat) with
    | (redis, .polled messages) => some ({ w with redis }.setScheduler i (.next messages))
    | _ => none
  | .publish partition offset, .due (message :: rest) =>
    match readPolled message with
    | .entry _ => (w.publish limit message partition offset).map (·.setScheduler i (.cancelling message rest))
    | _ => none
  | .cancel, .cancelling message rest =>
    match readPolled message with
    | .entry k => (w.cancel k).map (·.setScheduler i (.next rest))
    | _ => none
  | .skip, .due (message :: rest) =>
    match readPolled message with
    | .malformed => some (w.setScheduler i (.next rest))
    | _ => none
  | _, _ => none

/-- What a step of the deployment writes and reads. Whoever publishes or schedules builds the dict from what it has in
hand. A record that appears a second time has the same bytes. -/
def step (s : State) (w : Wire) : Action → Option Wire
  | .request i (.publish partition offset) => do
    let q ← s.store.requests[i]?
    w.publish limit (Message.fanOut q.eventId).value partition offset
  | .relay i (.publish partition offset) =>
    match s.relays[i]? with
    | some (.batch (entry :: _) _) => w.publish limit (Message.fanOut entry.eventId).value partition offset
    | _ => none
  | .scheduler i a => w.schedulerStep limit i a
  | .task i (.schedule retryAfter) => do
    let d ← s.delivery i
    w.schedule limit d.nextMember.key d.nextMessage.value retryAfter
  | .task i (.cancel true) => do
    let d ← s.delivery i
    w.cancel d.member.key
  | .loop .spawn => some { w with schedulers := w.schedulers ++ [.idle] }
  | .loop (.crash i) => some (w.setScheduler i .idle)
  | .duplicate r partition offset => do
    let raw ← w.topic.find? fun raw => raw.partition = r.partition && raw.offset = r.offset
    some { w with topic := w.topic ++ [⟨partition, offset, raw.value⟩] }
  | _ => some w

end Wire

/-- Whoever reads the bytes finds the messages of the deployment: a worker in each record of the topic, and a scheduler
in each batch it polls. Each reader has a recursion limit of its own. -/
structure Wire.Reads (w : Wire) (s : State) : Prop where
  topic : List.Forall₂ (fun raw r => raw.partition = r.partition ∧ raw.offset = r.offset ∧
    ∀ limit, readRecord (limit + 1) raw.value =
      some (.ok ⟨r.value.eventId, r.value.attempt, r.value.endpointId⟩)) w.topic s.group.log
  polls : ∀ limit now, w.redis.exec (.pollDue now : RetryCall (limit + 1) Nat) =
    (w.redis, .polled ((s.store.redis.pollDue now).map Message.value))

/-! ## Written messages -/

def Message.text (limit : Nat) (m : Message) : Text := (PyJson.dumps limit m.value).getD []

def Record.raw (limit : Nat) (r : Record Message) : Record (List UInt8) :=
  ⟨r.partition, r.offset, PyText.encodeUtf8 (r.value.text limit)⟩

def Member.rendered : Member ↪ String where
  toFun k := k.key.member
  inj' k k' same := by
    have keys := RetryKey.member_injective same
    simp only [Member.key, RetryKey.mk.injEq, Int.ofNat_inj] at keys
    cases k
    cases k'
    exact Member.mk.injEq .. ▸ keys

/-- The retries as `schedule` has written them. -/
def RedisRetryScheduler.written (limit : Nat) (q : RedisRetryScheduler) : RetryStore Nat :=
  ⟨q.zset.rename Member.rendered id, q.data.rename Member.rendered (Message.text limit)⟩

def Scheduler.values : Scheduler → ValueScheduler
  | .idle => .idle
  | .due messages => .due (messages.map Message.value)
  | .cancelling m rest => .cancelling m.value (rest.map Message.value)

/-- A deployment's messages, written. -/
def State.wire (limit : Nat) (s : State) : Wire :=
  ⟨s.group.log.map (Record.raw limit), s.store.redis.written limit, s.schedulers.map Scheduler.values⟩

section

variable {limit : Nat} {m : Message} {k : Member} {q : RedisRetryScheduler}

theorem Message.dumps_text (small : m.attempt < 1024) :
    PyJson.dumps (limit + 1) m.value = some (m.text (limit + 1)) := by
  have short : (Nat.toDigits 10 m.attempt).length ≤ PyJson.maxDigits := by
    rw [Nat.length_toDigits_le_iff (by decide) (by decide)]
    exact small.trans_le (overflow_size.1.trans overflow_size.2)
  obtain ⟨text, writes⟩ := m.writes limit short
  rw [Message.text, writes, Option.getD_some]

theorem Message.publish_text (small : m.attempt < 1024) :
    publish (limit + 1) m.value = some (PyText.encodeUtf8 (m.text (limit + 1))) := by
  rw [publish, dumps_text small, Option.map_some]

/-- A dict without an endpoint is malformed. -/
theorem Message.readPolled_untargeted (untargeted : m.endpointId = none) : readPolled m.value = .malformed := by
  have ids : readIds m.fields = .error .poison := by
    simp only [readIds, readRequired, getField_event, getField_endpoint, untargeted, Option.map_none, readUuid,
      UUID.ofText_toString, bind, Except.bind]
  simp only [Message.value, readPolled, ids]

theorem Member.inRange (small : k.attemptNumber < 1024) : k.key.InRange := by
  have size := overflow_size.1
  exact ⟨by show -(Binary64.overflow : Int) < (k.attemptNumber : Int); omega, Int.ofNat_lt.2 small⟩

theorem Member.toString_eq (k : Member) : k.toString = k.rendered := by
  have number : PyJson.intText (k.attemptNumber : Int) = Nat.toDigits 10 k.attemptNumber := by
    rw [PyJson.intText, if_neg (Int.not_lt.2 (Int.natCast_nonneg _)), Int.natAbs_natCast]
  show k.toString = RetryKey.member k.key
  rw [Member.toString, RetryKey.member, Member.key, number]
  rfl

namespace RedisRetryScheduler

theorem written_schedule (small : k.attemptNumber < 1024) (writes : m.attempt < 1024) (retryAfter : Nat) :
    (q.written (limit + 1)).schedule (limit + 1) k.key m.value retryAfter =
      some ((q.schedule k m retryAfter).written (limit + 1)) := by
  have fits := exponentialFits_iff.2 (Member.inRange small)
  rw [RetryStore.schedule, if_pos fits, RetryKey.render_inRange (Member.inRange small), Message.dumps_text writes]
  simp only [RetryStore.scheduleScript, written, schedule, AList.rename_insert]
  rfl

theorem written_cancel : (q.written limit).cancelScript k.key.member = (q.cancel k).written limit := by
  simp only [RetryStore.cancelScript, written, cancel, AList.rename_erase]
  rfl

/-- The order of the strings is the one of the members. -/
theorem zle_iff {x y : (_ : Member) × Nat} : zle x y = true ↔
    RetryStore.place (AList.renameEntry Member.rendered id x) ≤
      RetryStore.place (AList.renameEntry Member.rendered id y) := by
  simp only [zle, Member.toString_eq, Bool.or_eq_true, Bool.and_eq_true, decide_eq_true_eq, RetryStore.place,
    Prod.Lex.toLex_le_toLex]
  rfl

/-- The members due are the same, in the same order. -/
theorem written_due (now : Nat) : (q.written limit).dueEntries now =
    ((q.zset.entries.filter (·.2 ≤ now)).insertionSort (zle · ·)).map (AList.renameEntry Member.rendered id) := by
  have sorted := List.map_insertionSort (zle · ·) (fun x y => RetryStore.place x ≤ RetryStore.place y)
    (AList.renameEntry Member.rendered id) (q.zset.entries.filter (·.2 ≤ now)) fun x _ y _ => zle_iff
  rw [RetryStore.dueEntries, written, AList.rename_entries, List.filter_map, sorted]
  rfl

theorem written_agree (member : String) : member ∈ (q.written limit).zset ↔ member ∈ (q.written limit).data := by
  rw [written, AList.mem_rename, AList.mem_rename]
  simp only [mem_zset_iff, Holds]

variable (limit) in
/-- A poll finds the messages that are due. -/
theorem written_poll (other : Nat) (writes : ∀ k m, q.data.lookup k = some m → m.attempt < 1024) (now : Nat) :
    (q.written (limit + 1)).exec (.pollDue now : RetryCall (other + 1) Nat) =
      (q.written (limit + 1), .polled ((q.pollDue now).map Message.value)) := by
  have texts : ∀ ks : List Member, (∀ k ∈ ks, k ∈ q.data) →
      RetryStore.readEntries (other + 1) ((ks.map Member.rendered).filterMap (q.written (limit + 1)).data.lookup) =
        some ((ks.filterMap q.data.lookup).map Message.value) := by
    intro ks held
    induction ks with
    | nil => rfl
    | cons k ks ih =>
      obtain ⟨m, found⟩ := Option.isSome_iff_exists.1 (AList.lookup_isSome.2 (held k List.mem_cons_self))
      have text : (q.written (limit + 1)).data.lookup (Member.rendered k) = some (m.text (limit + 1)) := by
        rw [written, AList.lookup_rename, found, Option.map_some]
      have loads : PyJson.loads (other + 1) (m.text (limit + 1)) = .ok m.value :=
        PyJson.loads_dumps m.plain (m.dumps_value limit other ▸ Message.dumps_text (writes k m found))
      rw [List.map_cons, List.filterMap_cons, text, List.filterMap_cons, found, List.map_cons]
      simp only [RetryStore.readEntries, loads, ih fun k' hk => held k' (List.mem_cons_of_mem _ hk), Option.map_some]
  have polled : (q.written (limit + 1)).pollScript now pollBatch = (q.written (limit + 1),
      ((dueMembers q.zset now pollBatch).map Member.rendered).filterMap (q.written (limit + 1)).data.lookup) := by
    rw [RetryStore.pollScript_eq written_agree, written_due, ← List.map_take, List.map_map, dueMembers, List.map_map]
    rfl
  have due : q.pollDue now = (dueMembers q.zset now pollBatch).filterMap q.data.lookup := by
    rw [pollDue, pollScript, pollScript_fold (dueMembers_held q now pollBatch), List.nil_append]
  simp only [RetryStore.exec, polled, texts _ (dueMembers_held q now pollBatch), due]

end RedisRetryScheduler

/-! ## Steps -/

variable {cfg : Settings} {s s' : State} {a : Action}

theorem fanOut_small (e : UUID) : (Message.fanOut e).attempt < 1024 := by
  show 0 < 1024
  decide

/-- No message is published or stored whose number is too large for `backoff_seconds`. -/
theorem carried_small (small : cfg.maxRetryAttempts ≤ 1024) (reach : Reachable cfg s) :
    ∀ m, s.Carries m → m.attempt < 1024 := by
  refine reach.invariant (I := fun s => ∀ m, s.Carries m → m.attempt < 1024)
    (fun s a s' h _ hs m hm => ?_) fun m hm => ?_
  · rcases (step_transition hs).message_cases hm with old | ⟨e, -, rfl⟩ | ⟨i, t, d, result, -, -, -, left, rfl⟩
    · exact h m old
    · exact fanOut_small e
    · simp only [Delivery.exhausted, Bool.or_eq_false_iff, decide_eq_false_iff_not] at left
      show d.attemptNumber + 1 < 1024
      omega
  · rcases hm with ⟨r, hr, -⟩ | ⟨k, hk⟩ | ⟨sch, hsch, -⟩ <;> contradiction

/-- A call delivers under such a number. -/
theorem delivery_small (small : cfg.maxRetryAttempts ≤ 1024) (reach : Reachable cfg s) {t : Task Message Call}
    (ht : t ∈ s.group.tasks) {d : Delivery} (hd : t.data = .delivering d) : d.attemptNumber < 1024 := by
  rw [((provenance reach).calls t ht d hd).attempt]
  exact carried_small small reach _ (.inl ⟨t.record, (group_inv reach).tasks t ht, rfl⟩)

variable (limit) in
theorem wire_publish {group : ConsumerGroup Message Call} {p o : Nat} (writes : m.attempt < 1024)
    (appended : s.group.append ⟨p, o, m⟩ = some group) :
    (s.wire (limit + 1)).publish (limit + 1) m.value p o =
      some { s.wire (limit + 1) with topic := group.log.map (Record.raw (limit + 1)) } := by
  rw [(ConsumerGroup.append_eq_some appended).1, Wire.publish, Message.publish_text writes, Option.map_some,
    List.map_append]
  rfl

theorem wire_scheduler {i : Nat} {scheduler : Scheduler} (found : s.schedulers[i]? = some scheduler) :
    (s.wire limit).schedulers[i]? = some scheduler.values := by
  show (s.schedulers.map Scheduler.values)[i]? = _
  rw [List.getElem?_map, found, Option.map_some]

theorem Scheduler.values_next (ms : List Message) : (Scheduler.next ms).values = .next (ms.map Message.value) := by
  cases ms <;> rfl

theorem values_set (schedulers : List Scheduler) (i : Nat) (scheduler : Scheduler) :
    (schedulers.set i scheduler).map Scheduler.values = (schedulers.map Scheduler.values).set i scheduler.values :=
  List.map_set

theorem wire_cancel (small : k.attemptNumber < 1024) : (s.wire limit).cancel k.key =
    some { s.wire limit with redis := (s.store.redis.cancel k).written limit } := by
  rw [Wire.cancel, RetryKey.render_inRange (Member.inRange small), Option.map_some]
  show some { s.wire limit with redis := (s.store.redis.written limit).cancelScript k.key.member } = _
  rw [RedisRetryScheduler.written_cancel]

variable (limit m) in
theorem wire_schedule (small : k.attemptNumber < 1024) (writes : m.attempt < 1024) (retryAfter : Nat) :
    (s.wire (limit + 1)).schedule (limit + 1) k.key m.value retryAfter =
      some { s.wire (limit + 1) with redis := (s.store.redis.schedule k m retryAfter).written (limit + 1) } := by
  show ((s.store.redis.written (limit + 1)).schedule _ _ _ _).map _ = _
  rw [RedisRetryScheduler.written_schedule small writes, Option.map_some]

/-- What a call writes is its retry, and what it removes is the retry under its own number. -/
theorem wire_task (small : cfg.maxRetryAttempts ≤ 1024) (reach : Reachable cfg s) {i : Nat} {b : TaskAction}
    {t : Task Message Call} {st : Store} {c : Call} (found : s.group.tasks[i]? = some t)
    (moved : Moves cfg s.store t.record t.data b st c) :
    (s.wire (limit + 1)).step (limit + 1) s (.task i b) =
      some { s.wire (limit + 1) with redis := st.redis.written (limit + 1) } := by
  obtain ⟨worker, record, data⟩ := t
  cases moved with
  | @schedule d result retryAfter stage left =>
    have here : s.delivery i = some d := State.delivery_eq_some.2 ⟨_, found, rfl⟩
    have next : d.nextMember.attemptNumber < 1024 := by
      simp only [Delivery.exhausted, Bool.or_eq_false_iff, decide_eq_false_iff_not] at left
      show d.attemptNumber + 1 < 1024
      omega
    have attempt : d.nextMessage.attempt = d.nextMember.attemptNumber := rfl
    have scheduled := wire_schedule limit d.nextMessage (s := s) next (attempt ▸ next) retryAfter
    show (s.delivery i).bind _ = _
    rw [here, Option.bind_some]
    exact scheduled
  | @cancel d stage =>
    have here : s.delivery i = some d := State.delivery_eq_some.2 ⟨_, found, rfl⟩
    have fits : d.member.attemptNumber < 1024 := delivery_small small reach (List.mem_of_getElem? found) rfl
    show (s.delivery i).bind _ = _
    rw [here, Option.bind_some]
    exact wire_cancel fits
  | _ => rfl

theorem wire_duplicate (reach : Reachable cfg s) {r : Record Message} {p o : Nat}
    {group : ConsumerGroup Message Call} (present : r ∈ s.group.log)
    (appended : s.group.append ⟨p, o, r.value⟩ = some group) :
    (s.wire limit).step limit s (.duplicate r p o) =
      some (State.wire limit { s with group, store := s.store.log (.published ⟨p, o, r.value⟩) }) := by
  have bytes : (s.group.log.map (Record.raw limit)).find?
      (fun raw => raw.partition = r.partition && raw.offset = r.offset) = some (r.raw limit) := by
    have offsets := (group_inv reach).offsets
    cases found : (s.group.log.map (Record.raw limit)).find? fun raw =>
        raw.partition = r.partition && raw.offset = r.offset with
    | none =>
      have missed := List.find?_eq_none.1 found _ (List.mem_map_of_mem present)
      simp [Record.raw] at missed
    | some raw =>
      obtain ⟨r', hr', rfl⟩ := List.mem_map.1 (List.mem_of_find?_eq_some found)
      have place := List.find?_some found
      rw [Bool.and_eq_true] at place
      rw [offsets r' hr' r present (of_decide_eq_true place.1) (of_decide_eq_true place.2)]
  rw [(ConsumerGroup.append_eq_some appended).1]
  simp only [Wire.step, State.wire, bytes, Option.bind_eq_bind, Option.bind_some, List.map_append, List.map_cons,
    List.map_nil]
  rfl

/-- A tick of the scheduler goes by the values it has polled. -/
theorem wire_tick (small : cfg.maxRetryAttempts ≤ 1024) (reach : Reachable cfg s) {i : Nat} {b : SchedulerAction}
    (hs : Transition cfg s (.scheduler i b) s') :
    (s.wire (limit + 1)).schedulerStep (limit + 1) i b = some (s'.wire (limit + 1)) := by
  have carried := carried_small small reach
  cases hs with
  | @poll _ now found =>
    have polled := RedisRetryScheduler.written_poll limit limit (q := s.store.redis)
      (fun k m stored => carried m (.inr (.inl ⟨k, stored⟩))) now
    have redis : (s.wire (limit + 1)).redis = s.store.redis.written (limit + 1) := rfl
    simp only [Wire.schedulerStep, wire_scheduler found, Scheduler.values, Option.bind_eq_bind, Option.bind_some,
      redis, polled]
    simp only [State.wire, State.setScheduler, Wire.setScheduler, values_set, Scheduler.values_next]
  | @schedulerPublish _ p o m rest group found targeted appended =>
    obtain ⟨endpointId, target⟩ := Option.isSome_iff_exists.1 targeted
    have writes := carried m (.inr (.inr ⟨_, List.mem_of_getElem? found, List.mem_cons_self⟩))
    simp only [Wire.schedulerStep, wire_scheduler found, Scheduler.values, List.map_cons, Option.bind_eq_bind,
      Option.bind_some, Message.readPolled_value target, wire_publish limit writes appended, Option.map_some]
    simp only [State.wire, State.setScheduler, Wire.setScheduler, values_set, Scheduler.values]
    rfl
  | @schedulerCancel _ m endpointId rest found target =>
    have writes := carried m (.inr (.inr ⟨_, List.mem_of_getElem? found, List.mem_cons_self⟩))
    simp only [Wire.schedulerStep, wire_scheduler found, Scheduler.values, Option.bind_eq_bind, Option.bind_some,
      Message.readPolled_value target]
    have key : (⟨m.eventId, endpointId, m.attempt⟩ : RetryKey) =
        Member.key ⟨m.eventId, endpointId, m.attempt⟩ := rfl
    rw [key, wire_cancel (k := ⟨m.eventId, endpointId, m.attempt⟩) writes, Option.map_some]
    simp only [State.wire, State.setScheduler, Wire.setScheduler, values_set, Scheduler.values_next]
  | @schedulerSkip _ m rest found untargeted =>
    simp only [Wire.schedulerStep, wire_scheduler found, Scheduler.values, List.map_cons, Option.bind_eq_bind,
      Option.bind_some, Message.readPolled_untargeted untargeted]
    simp only [State.wire, State.setScheduler, Wire.setScheduler, values_set, Scheduler.values_next]

/-- **Writing commutes with every step**: what the processes write is what the next state's messages are written as. -/
theorem wire_step (small : cfg.maxRetryAttempts ≤ 1024) (reach : Reachable cfg s) (hs : s.step cfg a = some s') :
    (s.wire (limit + 1)).step (limit + 1) s a = some (s'.wire (limit + 1)) := by
  cases a with
  | scheduler i b => exact wire_tick small reach (step_transition hs)
  | loop b =>
    obtain ⟨group, stepped, same⟩ := Option.bind_eq_some_iff.1 hs
    cases same
    have log := (ConsumerGroup.loopStep_log stepped).1
    cases b with
    | spawn => simp only [Wire.step, State.wire, log, List.map_append, List.map_cons, List.map_nil, Scheduler.values]
    | crash w =>
      simp only [Wire.step, State.wire, State.setScheduler, State.setRelay, Wire.setScheduler, log, values_set,
        Scheduler.values]
    | _ => simp only [Wire.step, State.wire, log]
  | request i b =>
    cases step_transition hs with
    | requestPublish found _ appended =>
      have published := wire_publish limit (fanOut_small _) appended
      simp only [Wire.step, found, Option.bind_eq_bind, Option.bind_some, published]
      rfl
    | _ => rfl
  | relay i b =>
    cases step_transition hs with
    | relayPublish found appended =>
      have published := wire_publish limit (fanOut_small _) appended
      simp only [Wire.step, found, published]
      rfl
    | _ => rfl
  | task i b =>
    cases step_transition hs with
    | @task _ _ t _ _ found moved => exact wire_task small reach found moved
  | duplicate r p o =>
    cases step_transition hs with
    | duplicate present appended => exact wire_duplicate reach present appended
  | finish i o =>
    cases step_transition hs with
    | finish _ _ _ finished =>
      obtain ⟨_, _, log, -⟩ := ConsumerGroup.finish_eq_some finished
      simp only [Wire.step, State.wire, log]
  | _ => cases step_transition hs <;> rfl

theorem wire_reads (small : cfg.maxRetryAttempts ≤ 1024) (reach : Reachable cfg s) :
    (s.wire (limit + 1)).Reads s where
  topic := by
    refine List.forall₂_map_left_iff.2 (List.forall₂_same.2 fun r hr => ⟨rfl, rfl, fun other => ?_⟩)
    exact Message.readRecord_publish (Message.publish_text (carried_small small reach _ (.inl ⟨r, hr, rfl⟩)))
  polls other now := RedisRetryScheduler.written_poll limit other
    (fun k m stored => carried_small small reach m (.inr (.inl ⟨k, stored⟩))) now

/-- **The deployment over bytes takes every step**: in no run does a write fail or a reader find anything but the
message that was written. -/
theorem deployment_over_bytes (small : cfg.maxRetryAttempts ≤ 1024) {as : List Action}
    (run : Lts.Run (State.step cfg) Lts.Any initial as s) (limit : Nat) :
    ∃ w, Lts.Run (Lts.along (State.step cfg) (Wire.step (limit + 1))) Lts.Any (initial, {}) as (s, w) ∧ w.Reads s :=
  ⟨s.wire (limit + 1), run.along (fun _ _ _ reach hs => wire_step small reach hs) (.refl initial),
    wire_reads small ⟨as, run⟩⟩

end

/-- Two schedulers poll the same retry, and the next one waits in Redis. -/
theorem copies_over_bytes : ∃ s w,
    Lts.Run (Lts.along (State.step {}) (Wire.step 1000)) Lts.Any (initial, {}) sampleCopies (s, w) ∧ w.Reads s ∧
      s.store.redis.Holds sampleMember ∧ s.group.log.length = 4 := by
  obtain ⟨s, run, h⟩ := Lts.Run.of_check_any (C := fun _ _ => true) (s := initial)
    (p := fun s : State => decide (s.store.redis.Holds sampleMember) && s.group.log.length == 4)
    (show (Lts.check (State.step {}) _ _ sampleCopies).any _ = true by decide +kernel)
  rw [Bool.and_eq_true, decide_eq_true_eq, beq_iff_eq] at h
  obtain ⟨w, wired, reads⟩ := deployment_over_bytes (by decide) run.any 999
  exact ⟨s, w, wired, reads, h.1, h.2⟩

end HookRelay
