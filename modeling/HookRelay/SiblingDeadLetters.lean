import HookRelay.RowLocks
import HookRelay.Requeue

/-!
# What a replay does to the other dead letters of the event

`replay_dlq_entry` deletes one dead letter and publishes the fan-out of its event, which is delivered
like a new event: to every endpoint that is enabled, subscribed, and has no success yet, dead-lettered
or not. Followed through the run, with the retries it leads to, the record reaches no other endpoint.
-/

namespace HookRelay

/-- A deployment in which request `i` replays a dead letter, with what the replay has led to: records
of the pending topic, and retries scheduled by the calls on these records. -/
structure Replay where
  system : State
  records : List (Record Message) := []
  retries : List Member := []

/-- The member under which the message of a retry was stored. -/
def Message.member (m : Message) : Option Member :=
  m.endpointId.map fun endpointId => ⟨m.eventId, endpointId, m.attempt⟩

namespace Replay

/-- The record a step publishes because of the replay: the replay's own, a retry it has led to, or a
copy of such a record. -/
def causes (i : Nat) (t : Replay) : Action → List (Record Message)
  | .request j (.publish partition offset) =>
    (t.system.store.requests[j]?.filter fun _ => j = i).toList.map fun q =>
      ⟨partition, offset, .fanOut q.eventId⟩
  | .scheduler w (.publish partition offset) =>
    (t.system.schedulers[w]?.bind (·.messages.head?)).toList.filterMap fun m =>
      if m.member.any t.retries.contains then some ⟨partition, offset, m⟩ else none
  | .duplicate r partition offset =>
    if t.records.contains r then [⟨partition, offset, r.value⟩] else []
  | _ => []

/-- The retry a call on such a record schedules. -/
def schedules (t : Replay) : Action → List Member
  | .task j (.schedule _) =>
    ((t.system.group.tasks[j]?.filter fun task => t.records.contains task.record).bind
      (·.data.delivery)).toList.map (·.nextMember)
  | _ => []

def step (cfg : Settings) (i : Nat) (t : Replay) (a : Action) : Option Replay :=
  (t.system.step cfg a).map fun system =>
    { system, records := t.causes i a ++ t.records, retries := t.schedules a ++ t.retries }

/-- Nothing but the replay and what it leads to concerns the event: there is no other request about
endpoints or dead letters, and the calls on other records of the event stand still. -/
def follows (i : Nat) (eventId : UUID) (t : Replay) : Action → Bool
  | .createEndpoint _ _ | .updateEndpoint _ _ | .deleteEndpoint _ => false
  | .deleteDlq _ | .retryEvent _ | .replayDlq _ => false
  | .request j _ => j = i
  | .task j _ => t.system.group.tasks[j]?.all fun task =>
      task.record.value.eventId ≠ eventId || t.records.contains task.record
  | _ => true

abbrev Follows (i : Nat) (eventId : UUID) (t : Replay) (a : Action) : Prop :=
  t.follows i eventId a = true

end Replay

theorem RedisRetryScheduler.zset_cancel {r : RedisRetryScheduler} {k k' : Member} {due : Nat}
    (h : (r.cancel k).zset.lookup k' = some due) : r.zset.lookup k' = some due := by
  by_cases hk : k' = k
  · subst hk
    rw [cancel, AList.lookup_erase] at h
    cases h
  · rwa [cancel, AList.lookup_erase_ne hk] at h

/-- A POST of the event to the endpoint. -/
def Happening.posts (eventId endpointId : UUID) : Happening → Bool
  | .posted _ post => decide (post.eventId = eventId ∧ post.endpointId = endpointId)
  | _ => false

/-- Between the states there is no POST of the event to the endpoint, and no attempt row and no retry
entry of theirs is added. -/
structure LeavesAlone (e p : UUID) (s s' : State) : Prop where
  posts : s'.store.history.countP (Happening.posts e p) = s.store.history.countP (Happening.posts e p)
  attempts : ∀ row ∈ s'.store.db.attempts, row.eventId = e → row.endpointId = p →
    row ∈ s.store.db.attempts
  retries : ∀ k due, k.eventId = e → k.endpointId = p → s'.store.redis.zset.lookup k = some due →
    s.store.redis.zset.lookup k = some due

/-- The step is one of a delivery of the event to the endpoint that is past its idempotency check. -/
def State.acts (s : State) (a : Action) (e p : UUID) : Prop :=
  ∃ i b d, a = .task i b ∧ s.delivery i = some d ∧ d.stage ≠ .checking ∧ d.event.id = e ∧
    d.endpoint.id = p

section

variable {cfg : Settings} {s s' s'' : State} {a : Action} {e p : UUID}

theorem LeavesAlone.trans (h : LeavesAlone e p s s') (h' : LeavesAlone e p s' s'') :
    LeavesAlone e p s s'' where
  posts := h'.posts.trans h.posts
  attempts row hr he hp := h.attempts row (h'.attempts row hr he hp) he hp
  retries k due he hp hk := h.retries k due he hp (h'.retries k due he hp hk)

/-- A step that is not one of such a delivery leaves the pair alone. -/
theorem Transition.leavesAlone (hs : Transition cfg s a s') (idle : ¬ s.acts a e p) :
    LeavesAlone e p s s' := by
  have act : ∀ {i : Nat} {b : TaskAction} {t : Task Message Call} {d : Delivery}, a = .task i b →
      s.group.tasks[i]? = some t → t.data = .delivering d → d.stage ≠ .checking →
      ¬ (d.event.id = e ∧ d.endpoint.id = p) := fun same found data stage pair =>
    idle ⟨_, _, _, same, State.delivery_eq_some.2 ⟨_, found, data⟩, stage, pair⟩
  have unposted : ∀ {x : Happening} {history : List Happening}, x.posts e p = false →
      (x :: history).countP (Happening.posts e p) = history.countP (Happening.posts e p) :=
    fun h => List.countP_cons_of_neg (by simp [h])
  constructor
  · cases hs with
    | requestPublish | relayPublish | schedulerPublish | duplicate => exact unposted rfl
    | @task _ _ t _ _ found moved =>
      obtain ⟨worker, record, c⟩ := t
      cases moved with
      | @post d result stage =>
        have other := act rfl found rfl (by simp [stage])
        exact unposted (decide_eq_false other)
      | record | schedule => exact unposted rfl
      | _ => rfl
    | _ => rfl
  · intro row hr he hp
    rcases hs.attempt_cases hr with old | ⟨i, t, d, result, same, found, data, stage, rfl, -⟩
    · exact old
    · exact absurd ⟨he, hp⟩ (act same found data (by simp [stage]))
  · intro k due he hp hk
    cases hs with
    | schedulerCancel => exact RedisRetryScheduler.zset_cancel hk
    | @task _ _ t _ _ found moved =>
      obtain ⟨worker, record, c⟩ := t
      cases moved with
      | @schedule d result retryAfter stage =>
        have other := act rfl found rfl (by simp [stage])
        have ne : k ≠ d.nextMember := by
          rintro rfl
          exact other ⟨he, hp⟩
        rwa [Store.log, RedisRetryScheduler.schedule, AList.lookup_insert_ne ne] at hk
      | cancel => exact RedisRetryScheduler.zset_cancel hk
      | _ => exact hk
    | _ => exact hk

end

/-! ## Where a replay leads -/

/-- The event is to be delivered to the endpoint: it is enabled and subscribed, and has no success. -/
def State.Undelivered (s : State) (e p : UUID) : Prop :=
  s.store.db.Matches e p ∧ s.store.db.hasSuccess e p = false

/-- The records, the retries and the calls a replay leads to are for endpoints the event was to be
delivered to in the state `s`. -/
structure Replay.Confined (s : State) (i : Nat) (d : DLQEntry) (t : Replay) : Prop where
  request : ∃ stage, t.system.store.requests[i]? = some ⟨.replay d.id, d.eventId, stage⟩
  records : ∀ r ∈ t.records, r.value.eventId = d.eventId ∧
    ∀ p, r.value.endpointId = some p → s.Undelivered d.eventId p
  retries : ∀ k ∈ t.retries, k.eventId = d.eventId ∧ s.Undelivered d.eventId k.endpointId
  calls : ∀ task ∈ t.system.group.tasks, task.record ∈ t.records → ∀ del,
    task.data = .delivering del → (∀ q ∈ del.endpoint :: del.rest, s.store.db.Matches d.eventId q.id) ∧
      (del.stage ≠ .checking → s.Undelivered d.eventId del.endpoint.id)
  endpoints : t.system.store.db.endpoints = s.store.db.endpoints
  matching : ∀ p, t.system.store.db.Matches d.eventId p ↔ s.store.db.Matches d.eventId p
  success : ∀ p, t.system.store.db.hasSuccess d.eventId p = false →
    s.store.db.hasSuccess d.eventId p = false

section

variable {cfg : Settings} {s : State} {t t' : Replay} {a : Action} {i : Nat} {d : DLQEntry}

theorem Replay.fixes_of_follows {e : UUID} (follows : Replay.Follows i e t a) :
    a.fixesEndpoints = true := by
  cases a <;> first | rfl | cases follows

/-- What a step publishes because of the replay is new, and for endpoints the event was to be
delivered to. -/
theorem Replay.Confined.causes {system : State} (h : t.Confined s i d)
    (hs : Transition cfg t.system a system) {r : Record Message} (hr : r ∈ t.causes i a) :
    r ∉ t.system.group.log ∧ r.value.eventId = d.eventId ∧
      ∀ p, r.value.endpointId = some p → s.Undelivered d.eventId p := by
  have fresh : ∀ {m : Message} {p o : Nat} {group : ConsumerGroup Message Call},
      t.system.group.append ⟨p, o, m⟩ = some group →
      (⟨p, o, m⟩ : Record Message) ∉ t.system.group.log := fun appended hm =>
    Nat.lt_irrefl _ ((ConsumerGroup.append_eq_some appended).2 _ hm rfl)
  cases hs with
  | @requestPublish j p o q group found stage appended =>
    obtain ⟨q', hq', rfl⟩ := List.mem_map.1 hr
    obtain ⟨found', same⟩ := Option.filter_eq_some_iff.1 (Option.mem_toList.1 hq')
    cases of_decide_eq_true same
    obtain ⟨stage', request⟩ := h.request
    cases request.symm.trans found
    cases found'.symm.trans found
    exact ⟨fresh appended, rfl, fun p hp => by cases hp⟩
  | @schedulerPublish w p o m rest group found targeted appended =>
    simp only [Replay.causes, found, Option.bind_some, Scheduler.messages, List.head?_cons,
      Option.toList_some, List.filterMap_cons, List.filterMap_nil] at hr
    split at hr
    · cases hr
    · rename_i r' led
      obtain ⟨known, same⟩ := Option.ite_none_right_eq_some.1 led
      cases same
      cases List.mem_singleton.1 hr
      obtain ⟨k, member, hk⟩ := (Option.any_eq_true _ _).1 known
      obtain ⟨p', target, rfl⟩ := Option.map_eq_some_iff.1 member
      obtain ⟨event, awaits⟩ := h.retries _ (List.contains_iff_mem.1 hk)
      refine ⟨fresh appended, event, fun p'' hp => ?_⟩
      cases target.symm.trans hp
      exact awaits
  | @duplicate r' p o group present appended =>
    simp only [Replay.causes] at hr
    split at hr
    · rename_i known
      cases List.mem_singleton.1 hr
      exact ⟨fresh appended, h.records r' (List.contains_iff_mem.1 known)⟩
    · cases hr
  | _ => cases hr

/-- A retry a call on such a record schedules is for an endpoint the event was to be delivered to. -/
theorem Replay.Confined.schedules {system : State} (h : t.Confined s i d)
    (prov : Provenance t.system) (hs : Transition cfg t.system a system) {k : Member}
    (hk : k ∈ t.schedules a) : k.eventId = d.eventId ∧ s.Undelivered d.eventId k.endpointId := by
  cases hs with
  | @task j b task _ _ found moved =>
    cases b with
    | schedule retryAfter =>
      obtain ⟨worker, record, c⟩ := task
      obtain ⟨del, hdel, rfl⟩ := List.mem_map.1 hk
      obtain ⟨task', led, data⟩ := Option.bind_eq_some_iff.1 (Option.mem_toList.1 hdel)
      obtain ⟨found', known⟩ := Option.filter_eq_some_iff.1 led
      cases found.symm.trans found'
      have here := List.mem_of_getElem? found
      have led := List.contains_iff_mem.1 known
      cases Call.delivery_eq_some.1 data
      have from_ := prov.calls _ here del rfl
      refine ⟨from_.event.trans (h.records record led).1, ?_⟩
      apply (h.calls _ here led del rfl).2
      cases moved with
      | schedule stage => simp [stage]
    | _ => cases hk
  | _ => cases hk

/-- A call on such a record goes from one of these endpoints to the next. -/
theorem Replay.Confined.call {b : TaskAction} {st' : Store} {r : Record Message} {c c' : Call}
    (h : t.Confined s i d) (led : r ∈ t.records)
    (hc : ∀ del, c = .delivering del →
      (∀ q ∈ del.endpoint :: del.rest, s.store.db.Matches d.eventId q.id) ∧
        (del.stage ≠ .checking → s.Undelivered d.eventId del.endpoint.id))
    (hf : c.From r.value) (moved : Moves cfg t.system.store r c b st' c') :
    ∀ del, c' = .delivering del →
      (∀ q ∈ del.endpoint :: del.rest, s.store.db.Matches d.eventId q.id) ∧
        (del.stage ≠ .checking → s.Undelivered d.eventId del.endpoint.id) := by
  intro del same
  have next : ∀ {del₀ : Delivery}, c = .delivering del₀ → del₀.next = .delivering del →
      (∀ q ∈ del.endpoint :: del.rest, s.store.db.Matches d.eventId q.id) ∧
        (del.stage ≠ .checking → s.Undelivered d.eventId del.endpoint.id) := by
    intro del₀ here next
    obtain ⟨-, -, stage, rest⟩ := deliverNext_eq next
    rw [rest]
    exact ⟨fun q hq => (hc _ here).1 q (List.mem_cons_of_mem _ hq), fun ne => absurd stage ne⟩
  have goto : ∀ {del₀ : Delivery} {stage : Stage}, c = .delivering del₀ →
      del₀.goto stage = .delivering del → s.Undelivered d.eventId del₀.endpoint.id →
      (∀ q ∈ del.endpoint :: del.rest, s.store.db.Matches d.eventId q.id) ∧
        (del.stage ≠ .checking → s.Undelivered d.eventId del.endpoint.id) := by
    intro del₀ stage here goto awaits
    cases goto
    exact ⟨(hc _ here).1, fun _ => awaits⟩
  cases moved with
  | resolve =>
    obtain ⟨known, -, stage, ht⟩ := resolveTargets_eq same
    obtain ⟨he, hid⟩ := Tables.getEvent_some known
    refine ⟨fun q hq => ?_, fun ne => absurd stage ne⟩
    obtain ⟨event, targeted⟩ := h.records r led
    rw [ht] at hq
    rcases mem_targets.1 hq with ⟨p, target, here, -⟩ | ⟨-, matching⟩
    · rw [(Tables.getEndpoint_some here).2]
      exact (targeted p target).1
    · exact (h.matching q.id).1 ⟨del.event, he, hid.trans event, q, matching, rfl⟩
  | skip | schedule | notify | notifyFailed => exact next rfl same
  | @pass del₀ stage prior =>
    have event := (hf del₀ rfl).event.trans (h.records r led).1
    rw [event] at prior
    exact goto rfl same ⟨(hc _ rfl).1 _ List.mem_cons_self, h.success _ prior⟩
  | post stage | dlqConflict stage | insertDlq stage | cancel stage | cancelFailed stage =>
    exact goto rfl same ((hc _ rfl).2 (by simp [stage]))
  | conflict stage | record stage =>
    split at same
    · exact next rfl same
    · exact goto rfl same ((hc _ rfl).2 (by simp [stage]))

theorem Replay.Confined.step (h : t.Confined s i d) (prov : Provenance t.system)
    (inv : ConsumerGroup.Inv (fun _ => 0) t.system.group) {system : State}
    (event : d.eventId ∈ t.system.store.db.eventIds) (follows : Replay.Follows i d.eventId t a)
    (hs : Transition cfg t.system a system) :
    Replay.Confined s i d ⟨system, t.causes i a ++ t.records, t.schedules a ++ t.retries⟩ where
  request := by
    obtain ⟨stage, found⟩ := h.request
    obtain ⟨stage', found', -⟩ := hs.request_at found
    exact ⟨stage', found'⟩
  records r hr := by
    rcases List.mem_append.1 hr with new | old
    · exact (h.causes hs new).2
    · exact h.records r old
  retries k hk := by
    rcases List.mem_append.1 hk with new | old
    · exact h.schedules prov hs new
    · exact h.retries k old
  calls task htask hrec := by
    rcases hs.task_cases inv htask with old | ⟨new, -⟩ | ⟨j, b, task₀, rfl, found, record, moved⟩
    · rcases List.mem_append.1 hrec with new | led
      · exact absurd (inv.tasks task old) (h.causes hs new).1
      · exact h.calls task old led
    · rw [new]
      rintro _ ⟨⟩
    · have here := List.mem_of_getElem? found
      have led : task₀.record ∈ t.records := record ▸ hrec
      exact h.call led (h.calls task₀ here led) (prov.calls task₀ here) moved
  endpoints := (endpoints_step hs (Replay.fixes_of_follows follows)).trans h.endpoints
  matching p := (matches_fixed event hs.evolves
    (endpoints_step hs (Replay.fixes_of_follows follows))).trans (h.matching p)
  success p none := by
    apply h.success p
    by_contra success
    rw [Bool.not_eq_false] at success
    rw [success_fixed hs (Replay.fixes_of_follows follows) success] at none
    cases none

/-- A step leaves every pair alone but those the event was to be delivered to. -/
theorem Replay.Confined.of_acts (h : t.Confined s i d) (prov : Provenance t.system)
    (follows : Replay.Follows i d.eventId t a) {p : UUID} (acts : t.system.acts a d.eventId p) :
    s.Undelivered d.eventId p := by
  obtain ⟨j, b, del, rfl, delivery, stage, event, rfl⟩ := acts
  obtain ⟨task, found, data⟩ := State.delivery_eq_some.1 delivery
  have here := List.mem_of_getElem? found
  have led : task.record ∈ t.records := by
    have ok : (!decide (task.record.value.eventId = d.eventId) || t.records.contains task.record) = true := by
      simpa [Replay.Follows, Replay.follows, found] using follows
    rw [← (prov.calls task here del data).event, event] at ok
    simpa using ok
  exact (h.calls task here led del data).2 stage

/-- The replay's own dead letter is the only one that goes. -/
theorem Replay.Confined.kept (h : t.Confined s i d) (locks : RowLocks t.system) {system : State}
    (follows : Replay.Follows i d.eventId t a) (hs : Transition cfg t.system a system) {d' : DLQEntry}
    (there : d' ∈ t.system.store.db.dlq) (other : d'.id ≠ d.id) : d' ∈ system.store.db.dlq := by
  rcases hs.dlq_kept there with kept | rfl | ⟨rfl, -⟩ | ⟨j, q, r, rows, rfl, found, stage, gone⟩
  · exact kept
  · cases follows
  · cases follows
  · cases of_decide_eq_true follows
    obtain ⟨stage', request⟩ := h.request
    cases request.symm.trans found
    have held := locks.deleting _ (List.mem_of_getElem? found) r rows stage
    rw [← held] at gone
    simp only [Request.lockedRows] at gone
    split at gone
    · exact absurd (List.mem_singleton.1 gone) other
    · cases gone

/-- What a run that follows the replay keeps: the effects so far are confined. -/
structure Replay.Inv (cfg : Settings) (s : State) (i : Nat) (d : DLQEntry) (t : Replay) : Prop where
  reach : Reachable cfg t.system
  confined : t.Confined s i d
  spared : ∀ p, ¬ s.Undelivered d.eventId p → LeavesAlone d.eventId p s t.system
  kept : ∀ d' ∈ s.store.db.dlq, d'.id ≠ d.id → d' ∈ t.system.store.db.dlq

/-- The request is at its row. -/
theorem Replay.Inv.locked {s₁ : State} (reach : Reachable cfg s) (there : d ∈ s.store.db.dlq)
    (locked : s.step cfg (.replayDlq d.id) = some s₁) :
    Replay.Inv cfg s s.store.requests.length d { system := s₁ } := by
  have reach₁ : Reachable cfg s₁ := reach.next trivial locked
  cases step_transition locked with
  | @replayDlq _ d₀ found same =>
    cases Tables.eq_of_nodup_map s.store.db.valid.dlq_pkey found there same
    refine ⟨reach₁, ?_, fun p _ => ?_, fun d' hd _ => hd⟩
    · exact {
        request := ⟨.locked, List.getElem?_concat_length⟩
        records := fun r hr => by cases hr
        retries := fun k hk => by cases hk
        calls := fun task _ led => by cases led
        endpoints := rfl
        matching := fun p => Iff.rfl
        success := fun p none => none }
    · exact ⟨rfl, fun row hr _ _ => hr, fun k due _ _ hk => hk⟩

theorem Replay.Inv.step (h : Replay.Inv cfg s i d t) (follows : Replay.Follows i d.eventId t a)
    (hs : Replay.step cfg i t a = some t') : Replay.Inv cfg s i d t' := by
  obtain ⟨system, step, rfl⟩ := Option.map_eq_some_iff.1 hs
  have moved := step_transition step
  have prov := provenance h.reach
  obtain ⟨stage, request⟩ := h.confined.request
  have event : d.eventId ∈ t.system.store.db.eventIds :=
    prov.fansOut _ (.inl ⟨_, List.mem_of_getElem? request, rfl⟩)
  constructor
  · exact h.reach.next trivial step
  · exact h.confined.step prov (group_inv h.reach) event follows moved
  · intro p idle
    apply (h.spared p idle).trans
    exact moved.leavesAlone fun acts => idle (h.confined.of_acts prov follows acts)
  · intro d' there other
    exact h.confined.kept (rowLocks h.reach) follows moved (h.kept d' there other) other

end

/-- **What a replay does to the other dead letters of the event.** Whatever the replay of a dead
letter leads to (its record, the copies of it, and all retries that follow), as long as no endpoint
changes, no other request is made and nothing else concerns the event: every other dead letter stays,
and an endpoint that is disabled, not subscribed, or has a success of the event is left alone. -/
theorem replay_spares_siblings {cfg : Settings} {s s₁ : State} {d : DLQEntry} {as : List Action}
    {t : Replay} (reach : Reachable cfg s) (there : d ∈ s.store.db.dlq)
    (locked : s.step cfg (.replayDlq d.id) = some s₁)
    (run : Lts.Run (Replay.step cfg s.store.requests.length)
      (Replay.Follows s.store.requests.length d.eventId) { system := s₁ } as t) :
    (∀ d' ∈ s.store.db.dlq, d'.id ≠ d.id → d' ∈ t.system.store.db.dlq) ∧
      ∀ p, ¬ (s.store.db.Matches d.eventId p ∧ s.store.db.hasSuccess d.eventId p = false) →
        LeavesAlone d.eventId p s t.system := by
  have inv : Replay.Inv cfg s s.store.requests.length d t :=
    run.invariant (fun _ _ _ h follows hs => h.step follows hs) (.locked reach there locked)
  exact ⟨inv.kept, inv.spared⟩

/-- Both endpoints of the event answer 404 and are dead-lettered, under identifiers 6 and 7. -/
def sampleSiblings : List Action :=
  .createEndpoint (.ofNat 5) sampleEndpoint :: samplePublished ++
    handOut 0 [sampleRecord 0 (.fanOut (.ofNat 2))] ++ [.task 0 .resolve] ++
    [6, 7].flatMap (fun id => attempt 0 404 ++
      [.task 0 (.insertDlq (.ofNat id)), .task 0 (.cancel true), .task 0 (.notify true)]) ++
    [.finish 0 .returned]

/-- The replay of dead letter 7, and its record up to the POST to the endpoint delivered to first. -/
def sampleReplay : List Action :=
  [.request 0 (.publish 0 1), .request 0 .delete, .request 0 .commit] ++
    handOut 0 [sampleRecord 1 (.fanOut (.ofNat 2))] ++ [.task 0 .resolve] ++ attempt 0 500 ++
    [.task 0 (.schedule 10)]

def sampleEntry (id p : Nat) : DLQEntry :=
  ⟨.ofNat id, .ofNat 2, .ofNat p, "Permanent error: HTTP 404"⟩

/-- The state before the replay of dead letter 7, the one with the request, and the one after
`sampleReplay`. -/
def sampleReplayed (before : List Action) : Option (State × State × Replay) :=
  (Lts.check (State.step {}) (fun _ _ => true) initial before).bind fun s =>
    (s.step {} (.replayDlq (.ofNat 7))).bind fun s₁ =>
      (Lts.check (Replay.step {} 0) (Replay.follows 0 (.ofNat 2)) { system := s₁ } sampleReplay).map
        fun t => (s, s₁, t)

theorem sampleReplayed_run {before : List Action} {s s₁ : State} {t : Replay}
    (h : sampleReplayed before = some (s, s₁, t)) (quiet : s.store.requests = []) :
    Reachable {} s ∧ s.step {} (.replayDlq (.ofNat 7)) = some s₁ ∧
      Lts.Run (Replay.step {} s.store.requests.length) (Replay.Follows s.store.requests.length (.ofNat 2))
        { system := s₁ } sampleReplay t := by
  simp only [sampleReplayed, Option.bind_eq_some_iff, Option.map_eq_some_iff, Prod.mk.injEq] at h
  obtain ⟨_, first, _, locked, _, second, rfl, rfl, rfl⟩ := h
  refine ⟨⟨_, (Lts.Run.of_check first).any⟩, locked, ?_⟩
  rw [quiet]
  exact Lts.Run.of_check second

/-- The replay of one of two dead letters makes a POST to the endpoint of the other. -/
theorem replay_reaches_sibling :
    ¬ ∀ (cfg : Settings) (s s₁ : State) (d d' : DLQEntry) (as : List Action) (t : Replay),
      Reachable cfg s → d ∈ s.store.db.dlq → s.step cfg (.replayDlq d.id) = some s₁ →
      Lts.Run (Replay.step cfg s.store.requests.length)
        (Replay.Follows s.store.requests.length d.eventId) { system := s₁ } as t →
      d'.eventId = d.eventId → d'.endpointId ≠ d.endpointId → d' ∈ t.system.store.db.dlq →
      s.store.db.Matches d.eventId d.endpointId → s.store.db.Matches d.eventId d'.endpointId →
      LeavesAlone d.eventId d'.endpointId s t.system := by
  intro claim
  have h : (sampleReplayed sampleSiblings).any (fun x => x.1.store.requests.isEmpty &&
      x.1.store.db.dlq.contains (sampleEntry 7 1) &&
      x.2.2.system.store.db.dlq.contains (sampleEntry 6 5) &&
      x.1.store.db.Matches (.ofNat 2) (.ofNat 1) && x.1.store.db.Matches (.ofNat 2) (.ofNat 5) &&
      x.2.2.system.store.history.countP (Happening.posts (.ofNat 2) (.ofNat 5)) ≠
        x.1.store.history.countP (Happening.posts (.ofNat 2) (.ofNat 5))) = true := by
    decide +kernel
  simp only [Option.any_eq_true, Bool.and_eq_true, List.isEmpty_iff, List.contains_iff_mem,
    decide_eq_true_eq] at h
  obtain ⟨⟨s, s₁, t⟩, sample, ⟨⟨⟨⟨quiet, there⟩, there'⟩, mine⟩, other⟩, posted⟩ := h
  obtain ⟨reach, locked, run⟩ := sampleReplayed_run sample quiet
  have spared := claim {} s s₁ (sampleEntry 7 1) (sampleEntry 6 5) _ t reach there locked run rfl
    (by decide) there' mine other
  exact posted spared.posts

/-- The endpoint of dead letter 6 has been disabled by the time dead letter 7 is replayed. -/
theorem replay_spares_disabled : ∃ (s : State) (t : Replay), sampleEntry 6 5 ∈ t.system.store.db.dlq ∧
    LeavesAlone (.ofNat 2) (.ofNat 5) s t.system := by
  have h : (sampleReplayed (sampleSiblings ++
      [.updateEndpoint (.ofNat 5) { enabled := some (some false) }])).any (fun x =>
        x.1.store.requests.isEmpty && x.1.store.db.dlq.contains (sampleEntry 7 1) &&
        x.1.store.db.dlq.contains (sampleEntry 6 5) &&
        !x.1.store.db.Matches (.ofNat 2) (.ofNat 5)) = true := by
    decide +kernel
  simp only [Option.any_eq_true, Bool.and_eq_true, List.isEmpty_iff, List.contains_iff_mem,
    Bool.not_eq_true', decide_eq_false_iff_not] at h
  obtain ⟨⟨s, s₁, t⟩, sample, ⟨⟨quiet, there⟩, there'⟩, other⟩ := h
  obtain ⟨reach, locked, run⟩ := sampleReplayed_run sample quiet
  obtain ⟨kept, spared⟩ := replay_spares_siblings (d := sampleEntry 7 1) reach there locked run
  exact ⟨s, t, kept _ there' (by decide), spared (.ofNat 5) fun awaits => other awaits.1⟩

end HookRelay
