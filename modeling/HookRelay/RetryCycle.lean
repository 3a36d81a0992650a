import HookRelay.DerivedStatus
import HookRelay.Requeue

/-!
# When a reported retry is a real one

`get_event` takes a pair for retrying when it has an attempt and neither a success nor a dead letter.
Such a pair is on its way as long as it has a retry entry that nobody is about to cancel, or a
record whose calls have not got to the end of its delivery. One such token is handed on to the
next by every step of the workers; a pair falls out of the cycle only by the steps that `abandons`
lists, most of which remove a dead letter or skip an endpoint.
-/

namespace HookRelay

/-! ## Dead letters that stay -/

/-- The request's `DELETE` covers the dead letter. -/
def Request.covers (q : Request) (d : DLQEntry) : Bool :=
  match q.kind with
  | .retry => q.eventId = d.eventId
  | .replay dlqId => dlqId = d.id

/-- The request has published its record and is going to delete the dead letter. -/
def Request.dooms (q : Request) (d : DLQEntry) : Bool :=
  match q.stage with
  | .published _ => q.covers d
  | .deleted _ rows => d.id ∈ rows
  | _ => false

def Store.doomed (st : Store) (d : DLQEntry) : Bool := st.requests.any (·.dooms d)

/-- The pair has a success, or a dead letter that no open request is going to delete. -/
def Store.closed (st : Store) (e p : UUID) : Bool :=
  st.db.hasSuccess e p ||
    st.db.dlq.any fun d => d.eventId = e && d.endpointId = p && !st.doomed d

/-! ## Pairs on their way -/

/-- The call has come to the end of the delivery to the endpoint, or has none to make. -/
def Call.through (p : UUID) : Call → Bool
  | .resolving => false
  | .delivering d => p ∉ d.rest.map (·.id) &&
      (d.endpoint.id ≠ p || d.stage = .cancelling || d.stage = .notifying)
  | .finished => true

/-- The record is not processed, and no call on it is through with the endpoint. -/
def State.live (s : State) (r : Record Message) (p : UUID) : Bool :=
  !s.group.processed.contains r && s.group.tasks.all fun t => t.record ≠ r || !t.data.through p

def Call.cancels (k : Member) : Call → Bool
  | .delivering d => d.stage = .cancelling && d.member = k
  | _ => false

def Scheduler.cancels (k : Member) : Scheduler → Bool
  | .cancelling m _ =>
    m.eventId = k.eventId && m.endpointId = some k.endpointId && m.attempt = k.attemptNumber
  | _ => false

/-- A scheduler or a call is about to cancel the entry. -/
def State.cancels (s : State) (k : Member) : Bool :=
  s.schedulers.any (·.cancels k) || s.group.tasks.any (·.data.cancels k)

/-- The pair has a token: an entry that nobody is about to cancel, or a live record. -/
def State.Pending (s : State) (e p : UUID) : Prop :=
  (∃ n, s.store.redis.Holds ⟨e, p, n⟩ ∧ s.cancels ⟨e, p, n⟩ = false) ∨
    ∃ r ∈ s.group.log, r.value.Concerns e p ∧ s.live r p = true

/-- A pair that was tried is closed, or it is on its way and its endpoint still matches. -/
def State.Tended (s : State) (e p : UUID) : Prop :=
  s.store.db.Tried e p → s.store.closed e p = true ∨ (s.store.db.Matches e p ∧ s.Pending e p)

/-! ## How a pair is abandoned -/

/-- The call on the record `r` takes its pair out of the cycle: a success meets the row of a failure;
the pair's first attempt fails when its endpoint does not match any more or its record was done
with by another call; the next attempt is scheduled under a member that is about to be cancelled;
a dead letter conflicts with one that is about to be deleted. -/
def Delivery.abandons (s : State) (r : Record Message) (d : Delivery) : TaskAction → Bool
  | .record =>
    match d.stage with
    | .recording result =>
      if result.succeeded then s.store.db.HasRow d.event.id d.endpoint.id d.attemptNumber
      else !(s.store.db.Tried d.event.id d.endpoint.id ||
        (s.store.db.Matches d.event.id d.endpoint.id && s.live r d.endpoint.id))
    | _ => false
  | .schedule _ => s.cancels d.nextMember
  | .insertDlq _ => s.store.db.HasDlq d.event.id d.endpoint.id
  | _ => false

/-- The step takes a tried pair out of the cycle: a call of it does, a patch ends the match of its
endpoint, its dead letter is deleted, or a request re-queues it although its endpoint does not
match. -/
def State.abandons (s : State) (e p : UUID) : Action → Bool
  | .task i b => !s.store.closed e p && s.group.tasks[i]?.any fun t => t.data.delivery.any fun d =>
      d.event.id = e && d.endpoint.id = p && d.abandons s t.record b
  | .updateEndpoint id body => !s.store.closed e p && s.store.db.Tried e p &&
      ((s.store.db.getEndpoint id).bind body.apply).any fun q =>
        !(s.store.db.toTables.updateEndpoint id fun _ => q).Matches e p
  | .deleteDlq id => !s.store.db.hasSuccess e p && s.store.db.Tried e p &&
      s.store.db.dlq.any fun d => d.id = id && d.eventId = e && d.endpointId = p
  | .request i (.publish _ _) => !s.store.db.hasSuccess e p && s.store.db.Tried e p &&
      !s.store.db.Matches e p && s.store.requests[i]?.any fun q =>
        s.store.db.dlq.any fun d => d.eventId = e && d.endpointId = p && q.covers d
  | _ => false

/-- The step abandons no pair of the event. -/
abbrev Tends (e : UUID) (s : State) (a : Action) : Prop :=
  (s.store.db.endpointIds.all fun p => !s.abandons e p a) = true

/-! ## What is reported and what is there -/

/-- The record is not committed; a call that starts on it delivers the event to the endpoint, and so
do the calls that run on it. -/
structure State.WillDeliver (s : State) (r : Record Message) (e p : UUID) : Prop where
  present : r ∈ s.group.log
  event : r.value.eventId = e
  uncommitted : s.group.committed r.partition ≤ r.offset
  starting : p ∈ (resolveTargets s.store.db.toTables r.value).ahead
  running : ∀ t ∈ s.group.tasks, t.record = r → t.data = .resolving ∨ p ∈ t.data.ahead

/-- Redis has a retry entry of the pair, or an uncommitted record delivers it. -/
def State.Awaits (s : State) (e p : UUID) : Prop :=
  (∃ n, s.store.redis.Holds ⟨e, p, n⟩) ∨ ∃ r, s.WillDeliver r e p

section

variable {p : UUID}

theorem Call.through_delivering {d : Delivery} : (Call.delivering d).through p = true ↔
    p ∉ d.rest.map (·.id) ∧ (d.endpoint.id = p → d.stage = .cancelling ∨ d.stage = .notifying) := by
  simp only [Call.through, Bool.and_eq_true, Bool.or_eq_true, decide_eq_true_eq, or_assoc,
    imp_iff_not_or]

theorem State.live_iff {s : State} {r : Record Message} : s.live r p = true ↔
    r ∉ s.group.processed ∧ ∀ t ∈ s.group.tasks, t.record = r → t.data.through p = false := by
  simp [State.live, or_iff_not_imp_left]

/-! ## Calls -/

theorem deliverNext_through {event : Event} {n : Nat} {ps : List Endpoint}
    (h : (deliverNext event n ps).through p = true) : p ∉ ps.map (·.id) := by
  cases ps with
  | nil => simp
  | cons q ps =>
    obtain ⟨rest, here⟩ := Call.through_delivering.1 h
    rw [List.map_cons, List.mem_cons, not_or]
    exact ⟨fun he => by simpa using here he.symm, rest⟩

/-- A call that has just resolved its targets is through with the endpoints that are not among
them. -/
theorem resolveTargets_through {t : Tables} {m : Message}
    (h : (resolveTargets t m).through p = true) : (resolveTargets t m).Past p := by
  unfold resolveTargets at h ⊢
  split at h
  · trivial
  · have absent := deliverNext_through h
    rw [deliverNext_past]
    intro q hq he
    exact absent (List.mem_map.2 ⟨q, hq, he⟩)

theorem Delivery.through_of_next {d : Delivery} (h : d.next.through p = true)
    (ne : d.endpoint.id ≠ p) : (Call.delivering d).through p = true :=
  Call.through_delivering.2 ⟨deliverNext_through h, fun he => absurd he ne⟩

theorem Delivery.through_of_goto {d : Delivery} {stage : Stage} (h : (d.goto stage).through p = true)
    (ends : d.endpoint.id = p → stage = .cancelling ∨ stage = .notifying →
      d.stage = .cancelling ∨ d.stage = .notifying) : (Call.delivering d).through p = true := by
  obtain ⟨rest, here⟩ := Call.through_delivering.1 h
  exact Call.through_delivering.2 ⟨rest, fun he => ends he (here he)⟩

/-- What the delivery to the endpoint was when the call got through with it: a prior success, a POST
just answered with success, a scheduled retry, or a dead letter. -/
inductive Ends (st st' : Store) (p : UUID) : Call → TaskAction → Prop where
  | prior {d : Delivery} (endpoint : d.endpoint.id = p)
      (success : st.db.hasSuccess d.event.id d.endpoint.id = true) : Ends st st' p (.delivering d) .select
  | success {d : Delivery} {result : HttpResult} (endpoint : d.endpoint.id = p)
      (stage : d.stage = .recording result) (success : result.succeeded = true) :
      Ends st st' p (.delivering d) .record
  | scheduled {d : Delivery} {retryAfter : Nat} (endpoint : d.endpoint.id = p)
      (held : st'.redis.Holds d.nextMember) : Ends st st' p (.delivering d) (.schedule retryAfter)
  | deadLettered {d : Delivery} {id : UUID} (endpoint : d.endpoint.id = p) :
      Ends st st' p (.delivering d) (.insertDlq id)

section Calls

variable {cfg : Settings} {st st' : Store} {r : Record Message} {c c' : Call} {a : TaskAction}

theorem Moves.ends (h : Moves cfg st r c a st' c') (hc : c.From r.value)
    (resolved : c = .resolving → ¬ c'.Past p) (before : c.through p = false)
    (after : c'.through p = true) : Ends st st' p c a := by
  have next : ∀ {d : Delivery}, c = .delivering d → d.next.through p = true → d.endpoint.id = p := by
    rintro d rfl hn
    by_contra ne
    simp [d.through_of_next hn ne] at before
  have goto : ∀ {d : Delivery} {stage : Stage}, c = .delivering d → (d.goto stage).through p = true →
      (d.endpoint.id = p → stage = .cancelling ∨ stage = .notifying →
        d.stage = .cancelling ∨ d.stage = .notifying) → False := by
    rintro d stage rfl hg ends
    simp [d.through_of_goto hg ends] at before
  cases h with
  | resolve => exact absurd (resolveTargets_through after) (resolved rfl)
  | skip _ prior => exact .prior (next rfl after) prior
  | pass | post => exact (goto rfl after (by simp)).elim
  | conflict stage | record stage =>
    split at after
    · exact .success (next rfl after) stage ‹_›
    · exact (goto rfl after (by simp)).elim
  | schedule =>
    exact .scheduled (next rfl after) (RedisRetryScheduler.holds_schedule.2 (.inl rfl))
  | @dlqConflict d | @insertDlq d =>
    by_cases he : d.endpoint.id = p
    · exact .deadLettered he
    · exact (goto rfl after fun he' => absurd he' he).elim
  | cancel stage | cancelFailed stage => exact (goto rfl after fun _ _ => .inl stage).elim
  | @notify d stage | @notifyFailed d stage =>
    -- The endpoint is not among the rest, so the call was through with it before.
    have here := next rfl after
    have rest : p ∉ d.rest.map (·.id) := by
      rw [← here]
      exact (List.nodup_cons.1 (hc d rfl).nodup).1
    simp [Call.through_delivering.2 ⟨rest, fun _ => .inr stage⟩] at before

theorem Scheduler.cancels_iff {k : Member} {sch : Scheduler} : sch.cancels k = true ↔
    ∃ m rest, sch = .cancelling m rest ∧ m.eventId = k.eventId ∧
      m.endpointId = some k.endpointId ∧ m.attempt = k.attemptNumber := by
  cases sch with
  | cancelling m rest => simp [Scheduler.cancels, and_assoc]
  | idle | due => simp [Scheduler.cancels]

/-- A call comes to the cancel of `move_to_dlq` by its insert. -/
theorem Moves.cancels_cases (h : Moves cfg st r c a st' c') {k : Member}
    (hk : c'.cancels k = true) : ∃ d id, c = .delivering d ∧ a = .insertDlq id ∧ d.member = k := by
  have new : ∀ {event : Event} {n : Nat} {ps : List Endpoint},
      (deliverNext event n ps).cancels k = false := by
    intro event n ps
    cases ps <;> simp [deliverNext, Call.cancels]
  have goto : ∀ {d : Delivery} {stage : Stage}, (d.goto stage).cancels k = true →
      stage = .cancelling ∧ d.member = k := by
    intro d stage hg
    simp only [Delivery.goto, Call.cancels, Bool.and_eq_true, decide_eq_true_eq] at hg
    exact hg
  cases h with
  | resolve =>
    unfold resolveTargets at hk
    split at hk
    · cases hk
    · simp [new] at hk
  | skip | schedule | notify | notifyFailed => simp [Delivery.next, new] at hk
  | pass | post | cancel | cancelFailed => cases (goto hk).1
  | conflict | record =>
    split at hk
    · simp [Delivery.next, new] at hk
    · cases (goto hk).1
  | dlqConflict | insertDlq => exact ⟨_, _, rfl, rfl, (goto hk).2⟩

end Calls

end

/-! ## The step -/

section Step

variable {cfg : Settings} {s s' : State} {a : Action} {e p : UUID}

theorem Store.closed_iff {st : Store} : st.closed e p = true ↔ st.db.hasSuccess e p = true ∨
    ∃ d ∈ st.db.dlq, d.eventId = e ∧ d.endpointId = p ∧ st.doomed d = false := by
  simp [Store.closed, and_assoc]

theorem Tables.Valid.exists_of_tried {t : Tables} (v : t.Valid) (h : t.Tried e p) :
    p ∈ t.endpointIds := by
  obtain ⟨row, hr, -, rfl⟩ := h
  exact v.attempts_endpoint_fkey row hr

/-- The first attempt row of a pair is written by a call. -/
theorem Transition.tried_cases (h : Transition cfg s a s') (tried : s'.store.db.Tried e p) :
    s.store.db.Tried e p ∨ ∃ (i : Nat) (t : Task Message Call) (d : Delivery) (result : HttpResult),
      a = .task i .record ∧ s.group.tasks[i]? = some t ∧ t.data = .delivering d ∧
      d.stage = .recording result ∧ d.event.id = e ∧ d.endpoint.id = p ∧
      d.row result ∈ s'.store.db.attempts := by
  obtain ⟨row, hr, he, hp⟩ := tried
  rcases h.attempt_cases hr with old | ⟨i, t, d, result, rfl, found, hd, stage, rfl, -⟩
  · exact .inl ⟨row, old, he, hp⟩
  · exact .inr ⟨i, t, d, result, rfl, found, hd, stage, he, hp, hr⟩

/-- A dead letter that stays is endangered only when a request that covers it publishes. -/
theorem Transition.doomed_cases (h : Transition cfg s a s') {d : DLQEntry}
    (hd : d ∈ s.store.db.dlq) (stays : s.store.doomed d = false) : s'.store.doomed d = false ∨
      ∃ (i k o : Nat) (q : Request), a = .request i (.publish k o) ∧
        s.store.requests[i]? = some q ∧ q.covers d = true := by
  have safe : ∀ q ∈ s.store.requests, q.dooms d = false := by
    intro q hq
    rw [Store.doomed, List.any_eq_false] at stays
    simpa using stays q hq
  by_cases doomed : s'.store.doomed d = false
  · exact .inl doomed
  right
  rw [Bool.not_eq_false, Store.doomed, List.any_eq_true] at doomed
  obtain ⟨q', hq, dooms⟩ := doomed
  rcases h.request_cases hq with ⟨i, q, stage, found, rfl, moved⟩ | ⟨id, -, -, rfl, -⟩ |
    ⟨y, -, -, rfl, -⟩
  · have before := safe q (List.mem_of_getElem? found)
    rcases moved with rfl | ⟨b, rfl, moved⟩
    · rw [before] at dooms
      cases dooms
    · cases moved with
      | publish k o stage => exact ⟨i, k, o, q, rfl, found, dooms⟩
      | delete stage =>
        -- The rows the `DELETE` finds are those the request covers.
        have covered : q.covers d = true := by
          have row : d.id ∈ State.deletes s.store.db.toTables q := of_decide_eq_true dooms
          cases kind : q.kind with
          | retry =>
            simp only [State.deletes, kind, List.mem_map, List.mem_filter, decide_eq_true_eq] at row
            obtain ⟨y, ⟨hy, he⟩, same⟩ := row
            rw [Tables.eq_of_nodup_map s.store.db.valid.dlq_pkey hy hd same] at he
            simp [Request.covers, kind, he]
          | replay dlqId =>
            simp only [State.deletes, kind, List.mem_singleton] at row
            simp [Request.covers, kind, row]
        rw [Request.dooms, stage, covered] at before
        cases before
      | commit | abort => cases dooms
  · cases dooms
  · cases dooms

theorem covers_event {t : Tables} {q : Request} (ok : q.Consistent t) {d : DLQEntry} (hd : d ∈ t.dlq)
    (covers : q.covers d = true) : q.eventId = d.eventId := by
  unfold Request.covers at covers
  split at covers
  · exact of_decide_eq_true covers
  · rename_i kind
    exact ((ok.replay _ kind).2 d hd (of_decide_eq_true covers).symm).symm

theorem endpoint_deleted (h : Transition cfg s (.deleteEndpoint p) s') :
    p ∉ s'.store.db.endpointIds := by
  cases h with
  | deleteEndpoint =>
    intro hp
    obtain ⟨q, hq, same⟩ := Tables.mem_endpointIds.1 hp
    exact of_decide_eq_true (List.mem_filter.1 hq).2 same

/-- A record that has just been published is live. -/
theorem pending_of_append (inv : ConsumerGroup.Inv (fun _ => 0) s.group) (prov : Provenance s)
    {r : Record Message} (appended : s.group.append r = some s'.group)
    (concerns : r.value.Concerns e p) : s'.Pending e p := by
  obtain ⟨group, behind⟩ := ConsumerGroup.append_eq_some appended
  have fresh : r ∉ s.group.log := fun hr => absurd (behind r hr rfl) (Nat.lt_irrefl _)
  refine .inr ⟨r, ConsumerGroup.append_mem appended, concerns, State.live_iff.2 ⟨?_, ?_⟩⟩
  · rw [group]
    exact fun hp => fresh (prov.processed r hp)
  · rw [group]
    exact fun t ht hr => absurd (hr ▸ inv.tasks t ht) fresh

/-- An abandoning call apart, a step of a call on an open pair is harmless. -/
theorem State.abandons_task {i : Nat} {b : TaskAction} {t : Task Message Call} {d : Delivery}
    (kept : s.abandons e p (.task i b) = false) (found : s.group.tasks[i]? = some t)
    (hd : t.data = .delivering d) (he : d.event.id = e) (hp : d.endpoint.id = p) :
    s.store.closed e p = true ∨ d.abandons s t.record b = false := by
  simpa [State.abandons, found, hd, Call.delivery, he, hp, or_iff_not_imp_left] using kept

/-- Among the steps of a call, only the insert of a dead letter leads to a cancel. -/
theorem State.cancels_of_task {i : Nat} {b : TaskAction} (hs : Transition cfg s (.task i b) s')
    (other : ∀ id, b ≠ .insertDlq id) {k : Member} (h : s.cancels k = false) :
    s'.cancels k = false := by
  simp only [State.cancels, Bool.or_eq_false_iff, List.any_eq_false, Bool.not_eq_true] at h ⊢
  cases hs with
  | task found moved =>
    refine ⟨h.1, fun t' ht => ?_⟩
    rcases List.mem_or_eq_of_mem_set ht with old | rfl
    · exact h.2 t' old
    · by_contra cancels
      obtain ⟨_, id, -, same, -⟩ := moved.cancels_cases (by simpa using cancels)
      exact other id same

section Facts

variable (inv : ConsumerGroup.Inv (fun _ => 0) s.group) (prov : Provenance s)
  (requests : ∀ q ∈ s.store.requests, q.Consistent s.store.db.toTables)
  (hs : Transition cfg s a s') (kept : s.abandons e p a = false)
include hs

theorem closed_of_success (tried : s'.store.db.Tried e p)
    (success : s.store.db.hasSuccess e p = true) : s'.store.closed e p = true :=
  Store.closed_iff.2 (.inl (hs.evolves.hasSuccess success
    (s'.store.db.valid.exists_of_tried tried)))

include requests kept in
/-- A call that dead-letters the pair closes it: its row is new, or it conflicts with one that
stays. -/
theorem closed_of_insertDlq {i : Nat} {id : UUID} {t : Task Message Call} {d : Delivery}
    (ha : a = .task i (.insertDlq id)) (found : s.group.tasks[i]? = some t)
    (hd : t.data = .delivering d) (he : d.event.id = e) (hp : d.endpoint.id = p) :
    s'.store.closed e p = true := by
  subst ha
  have harmless := State.abandons_task kept found hd he hp
  cases hs with
  | task found' moved =>
    cases found.symm.trans found'
    rw [hd] at moved
    cases moved with
    | dlqConflict _ _ taken => exact harmless.resolve_right (by simp [Delivery.abandons, taken])
    | @insertDlq _ result _ db _ _ _ unlocked _ fresh tables =>
      refine Store.closed_iff.2 (.inr ⟨⟨id, d.event.id, d.endpoint.id, Delivery.reason cfg result⟩,
        ?_, he, hp, ?_⟩)
      · rw [tables]
        exact List.mem_append_right _ (List.mem_singleton_self _)
      · -- No open request covers the event, and none knows the new identifier.
        rw [Store.doomed, List.any_eq_false]
        intro q hq dooms
        have ok := requests q hq
        unfold Request.dooms at dooms
        split at dooms
        · rename_i stage
          unfold Request.covers at dooms
          split at dooms <;> rename_i kind
          · rw [Store.eventLocked, List.any_eq_false] at unlocked
            apply unlocked q hq
            simp [Request.locksEvent, Request.isOpen, kind, stage, of_decide_eq_true dooms]
          · have same : _ = id := of_decide_eq_true dooms
            exact fresh (same ▸ (ok.replay _ kind).1)
        · rename_i stage
          have row : id ∈ q.deleting := by
            rw [Request.deleting, stage]
            exact of_decide_eq_true dooms
          exact fresh (ok.deleting id row).1
        · cases dooms

include kept in
/-- A success of an open pair is recorded. -/
theorem closed_of_record {i : Nat} {t : Task Message Call} {d : Delivery} {result : HttpResult}
    (ha : a = .task i .record) (found : s.group.tasks[i]? = some t) (hd : t.data = .delivering d)
    (he : d.event.id = e) (hp : d.endpoint.id = p) (stage : d.stage = .recording result)
    (success : result.succeeded = true) (opened : s.store.closed e p = false) :
    s'.store.closed e p = true := by
  subst ha
  have harmless := (State.abandons_task kept found hd he hp).resolve_left (by simp [opened])
  simp only [Delivery.abandons, stage, success, if_true, decide_eq_false_iff_not] at harmless
  cases hs with
  | task found' moved =>
    cases found.symm.trans found'
    rw [hd] at moved
    cases moved with
    | conflict _ taken => exact absurd taken harmless
    | record stage' _ _ _ tables =>
      cases stage.symm.trans stage'
      refine Store.closed_iff.2 (.inl ?_)
      rw [Store.log, tables]
      exact Tables.hasSuccess_iff.2 ⟨_, List.mem_append_right _ (List.mem_singleton_self _), he, hp,
        HttpResult.succeeded_iff.1 success⟩

include inv prov requests kept in
/-- A closed pair stays closed, or it is re-queued and on its way. -/
theorem tended_of_closed (tried : s'.store.db.Tried e p) (closed : s.store.closed e p = true) :
    s'.store.closed e p = true ∨ (s'.store.db.Matches e p ∧ s'.Pending e p) := by
  rcases Store.closed_iff.1 closed with success | ⟨d, hd, he, hp, stays⟩
  · exact .inl (closed_of_success hs tried success)
  have exist := s'.store.db.valid.exists_of_tried tried
  have before : (∀ i, a ≠ .task i .record) → s.store.db.Tried e p := fun other =>
    (hs.tried_cases tried).resolve_right fun ⟨i, _, _, _, ha, _⟩ => other i ha
  rcases hs.dlq_kept hd with still | rfl | ⟨rfl, -⟩ | ⟨i, q, r, rows, rfl, found, stage, row⟩
  · rcases hs.doomed_cases hd stays with safe | ⟨i, k, o, q, rfl, found, covers⟩
    · exact .inl (Store.closed_iff.2 (.inr ⟨d, still, he, hp, safe⟩))
    · by_cases success : s.store.db.hasSuccess e p = true
      · exact .inl (closed_of_success hs tried success)
      · right
        have pair : s.store.db.Matches e p := by
          by_contra unmatched
          have here : s.store.db.dlq.any (fun d => d.eventId = e && d.endpointId = p && q.covers d) =
              true := List.any_eq_true.2 ⟨d, hd, by simp [he, hp, covers]⟩
          simp [State.abandons, found, success, before (by simp), unmatched, here] at kept
        have event : q.eventId = e := he ▸ covers_event (requests q (List.mem_of_getElem? found)) hd covers
        cases hs with
        | requestPublish found' _ appended =>
          cases found.symm.trans found'
          exact ⟨pair, pending_of_append inv prov appended ⟨event, .inl rfl⟩⟩
  · exact absurd (hp ▸ exist) (endpoint_deleted hs)
  · left
    have success : s.store.db.hasSuccess e p = true := by
      by_contra unsuccessful
      have here : s.store.db.dlq.any (fun x => x.id = d.id && x.eventId = e && x.endpointId = p) =
          true := List.any_eq_true.2 ⟨d, hd, by simp [he, hp]⟩
      simp [State.abandons, unsuccessful, before (by simp), here] at kept
    exact closed_of_success hs tried success
  · have dooms : s.store.doomed d = true :=
      List.any_eq_true.2 ⟨q, List.mem_of_getElem? found, by simp [Request.dooms, stage, row]⟩
    rw [stays] at dooms
    cases dooms

include inv prov requests kept in
/-- An entry that nobody is about to cancel stays, is published, or goes with a dead letter. -/
theorem pending_of_entry {n : Nat} (held : s.store.redis.Holds ⟨e, p, n⟩)
    (idle : s.cancels ⟨e, p, n⟩ = false) : s'.store.closed e p = true ∨ s'.Pending e p := by
  simp only [State.cancels, Bool.or_eq_false_iff, List.any_eq_false, Bool.not_eq_true] at idle
  have still : s'.store.redis.Holds ⟨e, p, n⟩ := by
    rcases hs.holds_cases held with still | ⟨i, t, d, -, found, hd, stage, same⟩ |
      ⟨w, m, rest, -, found, he, target, number⟩
    · exact still
    · have quiet := idle.2 t (List.mem_of_getElem? found)
      simp [hd, Call.cancels, stage, same] at quiet
    · exact absurd (Scheduler.cancels_iff.2 ⟨m, rest, rfl, he, target, number⟩)
        (by rw [idle.1 _ (List.mem_of_getElem? found)]; simp)
  by_cases quiet : s'.cancels ⟨e, p, n⟩ = false
  · exact .inr (.inl ⟨n, still, quiet⟩)
  rw [Bool.not_eq_false, State.cancels, Bool.or_eq_true, List.any_eq_true, List.any_eq_true] at quiet
  rcases quiet with ⟨sch, hsch, cancels⟩ | ⟨t', ht, cancels⟩
  · -- Only a scheduler that has just published the entry's message is new to the cancel.
    right
    obtain ⟨m, rest, rfl, event, target, -⟩ := Scheduler.cancels_iff.1 cancels
    rcases hs.cancelling_cases hsch with old | ⟨q, o, appended, -⟩
    · rw [idle.1 _ old] at cancels
      cases cancels
    · exact pending_of_append inv prov appended ⟨event, .inr target⟩
  · left
    rcases hs.task_cases inv ht with old | ⟨new, -⟩ | ⟨i, b, t, ha, found, -, moved⟩
    · rw [idle.2 t' old] at cancels
      cases cancels
    · rw [new] at cancels
      cases cancels
    · obtain ⟨d, id, hd, rfl, member⟩ := moved.cancels_cases cancels
      simp only [Delivery.member, Member.mk.injEq] at member
      exact closed_of_insertDlq requests hs kept ha found hd member.1 member.2.1

include inv prov requests kept in
/-- A live record stays live until a call is through with the endpoint, which closes the pair or
schedules its next attempt. -/
theorem pending_of_record (tried : s'.store.db.Tried e p) (opened : s.store.closed e p = false)
    (pair : s.store.db.Matches e p) {r : Record Message} (hr : r ∈ s.group.log) (concerns : r.value.Concerns e p)
    (live : s.live r p = true) : s'.store.closed e p = true ∨ s'.Pending e p := by
  obtain ⟨unprocessed, ahead⟩ := State.live_iff.1 live
  by_cases live' : s'.live r p = true
  · exact .inr (.inr ⟨r, hs.log_mono hr, concerns, live'⟩)
  have still : r ∉ s'.group.processed := by
    intro hp
    rcases hs.processed_cases hp with old | ⟨i, t, -, found, same, ended⟩
    · exact unprocessed old
    · have before := ahead t (List.mem_of_getElem? found) same
      rw [ended] at before
      cases before
  obtain ⟨t', ht, rfl, through⟩ : ∃ t' ∈ s'.group.tasks, t'.record = r ∧
      t'.data.through p = true := by
    by_contra none
    refine live' (State.live_iff.2 ⟨still, fun t' ht same => ?_⟩)
    by_contra through
    exact none ⟨t', ht, same, by simpa using through⟩
  rcases hs.task_cases inv ht with old | ⟨new, -⟩ | ⟨i, b, t, ha, found, record, moved⟩
  · simp [ahead t' old rfl] at through
  · rw [new] at through
    cases through
  have ht := List.mem_of_getElem? found
  have before := ahead t ht record.symm
  rw [record] at concerns
  have resolved : t.data = .resolving → ¬ t'.data.Past p := by
    intro hres
    rw [hres] at moved
    rw [moved.resolving.2]
    exact pair.not_past s.store.db.valid concerns
  have from_ := prov.calls t ht
  have ends := moved.ends from_ resolved before through
  generalize hc : t.data = c at ends moved
  cases ends with
  | @prior d endpoint success =>
    rw [(from_ d hc).event, concerns.1, endpoint] at success
    exact .inl (closed_of_success hs tried success)
  | @success d result endpoint stage success =>
    exact .inl (closed_of_record hs kept ha found hc (((from_ d hc).event).trans concerns.1) endpoint
      stage success opened)
  | @scheduled d retryAfter endpoint held =>
    have event : d.event.id = e := ((from_ d hc).event).trans concerns.1
    subst ha
    have idle := (State.abandons_task kept found hc event endpoint).resolve_left (by simp [opened])
    have next : d.nextMember = ⟨e, p, d.attemptNumber + 1⟩ := by
      rw [Delivery.nextMember, event, endpoint]
    rw [Delivery.abandons, next] at idle
    rw [next] at held
    exact .inr (.inl ⟨_, held, State.cancels_of_task hs (by simp) idle⟩)
  | @deadLettered d id endpoint =>
    exact .inl (closed_of_insertDlq requests hs kept ha found hc
      (((from_ d hc).event).trans concerns.1) endpoint)

include kept in
theorem matches_kept (tried : s.store.db.Tried e p) (tried' : s'.store.db.Tried e p)
    (opened : s.store.closed e p = false) (pair : s.store.db.Matches e p) :
    s'.store.db.Matches e p := by
  by_cases spared : a.spares p = true
  · exact matches_step hs spared pair
  cases a with
  | updateEndpoint id body =>
    cases hs with
    | @updateEndpoint _ _ _ p' found applied =>
      have still : (s.store.db.toTables.updateEndpoint id fun _ => p').Matches e p := by
        simpa [State.abandons, opened, tried, found, applied] using kept
      exact still
  | deleteEndpoint id =>
    have same : id = p := by simpa [Action.spares] using spared
    subst same
    exact absurd (s'.store.db.valid.exists_of_tried tried') (endpoint_deleted hs)
  | _ => exact absurd rfl spared

end Facts

theorem State.Tended.step (h : s.Tended e p) (inv : ConsumerGroup.Inv (fun _ => 0) s.group)
    (prov : Provenance s) (requests : ∀ q ∈ s.store.requests, q.Consistent s.store.db.toTables)
    (hs : Transition cfg s a s') (kept : s.abandons e p a = false) : s'.Tended e p := by
  intro tried'
  by_cases opened : s.store.closed e p = false
  swap
  · exact tended_of_closed inv prov requests hs kept tried' (by simpa using opened)
  have pending : s.store.db.Matches e p → s.Pending e p →
      s'.store.closed e p = true ∨ s'.Pending e p := by
    rintro pair (⟨n, held, idle⟩ | ⟨r, hr, concerns, live⟩)
    · exact pending_of_entry inv prov requests hs kept held idle
    · exact pending_of_record inv prov requests hs kept tried' opened pair hr concerns live
  have already : s.store.db.Tried e p →
      s'.store.closed e p = true ∨ (s'.store.db.Matches e p ∧ s'.Pending e p) := by
    intro tried
    obtain ⟨pair, waits⟩ := (h tried).resolve_left (by simp [opened])
    exact (pending pair waits).imp_right (⟨matches_kept hs kept tried tried' opened pair, ·⟩)
  rcases hs.tried_cases tried' with tried | ⟨i, t, d, result, rfl, found, hd, stage, he, hp, -⟩
  · exact already tried
  by_cases success : result.succeeded = true
  · exact .inl (closed_of_record hs kept rfl found hd he hp stage success opened)
  by_cases tried : s.store.db.Tried e p
  · exact already tried
  -- The first attempt of the pair failed: its record is live.
  have harmless := (State.abandons_task kept found hd he hp).resolve_left (by simp [opened])
  simp only [Delivery.abandons, stage, success, Bool.false_eq_true, if_false, he, hp, tried,
    decide_false, Bool.false_or, Bool.not_eq_false', Bool.and_eq_true, decide_eq_true_eq] at harmless
  obtain ⟨pair, live⟩ := harmless
  have ht := List.mem_of_getElem? found
  have from_ := prov.calls t ht d hd
  have concerns : t.record.value.Concerns e p := by
    refine ⟨from_.event.symm.trans he, ?_⟩
    cases target : t.record.value.endpointId with
    | none => exact .inl rfl
    | some q => exact .inr (congrArg some ((from_.target _ List.mem_cons_self q target).symm.trans hp))
  have waits : s.Pending e p := .inr ⟨t.record, inv.tasks t ht, concerns, live⟩
  exact (pending pair waits).imp_right (⟨matches_step hs rfl pair, ·⟩)

/-- A record that is live for a pair on its way is uncommitted and will be delivered. -/
theorem State.Pending.awaits (inv : ConsumerGroup.Inv (fun _ => 0) s.group)
    (pair : s.store.db.Matches e p) (h : s.Pending e p) : s.Awaits e p := by
  rcases h with ⟨n, held, -⟩ | ⟨r, hr, concerns, live⟩
  · exact .inl ⟨n, held⟩
  obtain ⟨unprocessed, ahead⟩ := State.live_iff.1 live
  refine .inr ⟨r, hr, concerns.1, ?_, ?_, fun t ht same => ?_⟩
  · by_contra below
    exact unprocessed ((inv.committed r.partition).below r hr rfl (Nat.zero_le _) (by omega))
  · by_contra absent
    exact pair.not_past s.store.db.valid concerns
      (Call.past_iff.2 ⟨resolveTargets_ne_resolving, absent⟩)
  · have before := ahead t ht same
    generalize t.data = c at before
    cases c with
    | resolving => exact .inl rfl
    | finished => cases before
    | delivering d =>
      right
      by_contra absent
      simp only [Call.ahead, List.map_cons, List.mem_cons, not_or] at absent
      simp [Call.through_delivering.2 ⟨absent.2, fun he => absurd he.symm absent.1⟩] at before

/-- **When a reported retry is a real one.** In every run whose steps abandon no pair of the event: if
the status derived for it is `retrying` or `partially_retrying`, then for some endpoint that the
query counts as retrying Redis has a retry entry of the pair, or an uncommitted record will be
delivered to it. -/
theorem reported_retry_is_real {as : List Action}
    (run : Lts.Run (State.step cfg) (Tends e) initial as s) {event : Event}
    (found : s.getEvent e = some event)
    (status : event.status = .retrying ∨ event.status = .partiallyRetrying) :
    ∃ p, s.store.db.CountsRetrying e p ∧ s.Awaits e p := by
  have reach : Reachable cfg s := ⟨as, run.any⟩
  have tended : ∀ p, s.Tended e p := by
    refine run.invariant_from (I := fun s => ∀ p, s.Tended e p) (fun s a s' reach h kept hs p => ?_)
      (.refl initial) fun p tried => ?_
    · have hs := step_transition hs
      by_cases exist : p ∈ s.store.db.endpointIds
      · have kept : s.abandons e p a = false := by simpa using List.all_eq_true.1 kept p exist
        exact (h p).step (group_inv reach) (provenance reach) (requests_consistent reach) hs kept
      · -- An endpoint that has just been created has no attempt.
        rintro ⟨row, hr, -, rfl⟩
        rcases hs.attempt_cases hr with old | ⟨_, _, _, _, -, -, -, -, -, here, -⟩
        · exact absurd (s.store.db.valid.attempts_endpoint_fkey row old) exist
        · exact absurd here exist
    · obtain ⟨row, hr, -⟩ := tried
      cases hr
  obtain ⟨event', -, same⟩ := Option.bind_eq_some_iff.1 found
  cases same
  obtain ⟨p, counted⟩ := Tables.countsRetrying_of_status status
  obtain ⟨tried, unsuccessful, alive⟩ := Tables.countsRetrying_iff.1 counted
  refine ⟨p, counted, ?_⟩
  rcases tended p tried with closed | ⟨pair, pending⟩
  · rcases Store.closed_iff.1 closed with success | ⟨d, hd, he, hp, -⟩
    · rw [success] at unsuccessful
      cases unsuccessful
    · exact absurd ⟨d, hd, he, hp⟩ alive
  · exact pending.awaits (group_inv reach) pair

end Step

/-- The only dead letter of the event is deleted by an operator. -/
theorem reported_retry_not_real :
    ¬ ∀ (cfg : Settings) (s : State) (e : UUID) (event : Event), Reachable cfg s →
      s.getEvent e = some event →
      event.status = .retrying ∨ event.status = .partiallyRetrying →
      ∃ p, s.store.db.CountsRetrying e p ∧ s.Awaits e p := by
  intro claim
  obtain ⟨s, run, h⟩ := Lts.Run.of_check_any (C := fun _ _ => true) (s := initial)
    (p := fun s : State => (s.getEvent (.ofNat 2)).any fun event : Event =>
      decide (event.status = EventStatus.retrying) && s.store.redis.data.keys.isEmpty &&
        s.group.log.all fun r => decide (r.offset < s.group.committed r.partition))
    (show (Lts.check (State.step {}) _ _ (sampleDeadLetter ++
      [.loop (.commitApply 0), .deleteDlq (.ofNat 4)])).any _ = true by decide +kernel)
  simp only [Option.any_eq_true, Bool.and_eq_true, decide_eq_true_eq, List.isEmpty_iff,
    List.all_eq_true] at h
  obtain ⟨event, found, ⟨status, empty⟩, committed⟩ := h
  obtain ⟨p, -, ⟨n, held⟩ | ⟨r, will⟩⟩ := claim {} s (.ofNat 2) event ⟨_, run.any⟩ found (.inl status)
  · rw [RedisRetryScheduler.Holds, AList.mem_keys, empty] at held
    cases held
  · exact absurd will.uncommitted (Nat.not_le_of_lt (committed r will.present))

/-- The dead letter is replayed instead: the published record is still to be delivered. -/
theorem reported_retry_is_real_replayed :
    ∃ (s : State) (event : Event), s.getEvent (.ofNat 2) = some event ∧
      event.status = .retrying ∧
      ∃ p, s.store.db.CountsRetrying (.ofNat 2) p ∧ s.Awaits (.ofNat 2) p := by
  obtain ⟨s, run, h⟩ := Lts.Run.of_check_any
    (C := fun s a => s.store.db.endpointIds.all fun p => !s.abandons (.ofNat 2) p a) (s := initial)
    (p := fun s : State => (s.getEvent (.ofNat 2)).any fun event : Event =>
      decide (event.status = EventStatus.retrying))
    (show (Lts.check (State.step {}) _ _ (sampleDeadLetter ++
      [.replayDlq (.ofNat 4), .request 0 (.publish 0 1), .request 0 .delete,
        .request 0 .commit])).any _ = true by decide +kernel)
  simp only [Option.any_eq_true, decide_eq_true_eq] at h
  obtain ⟨event, found, status⟩ := h
  exact ⟨s, event, found, status, reported_retry_is_real run found (.inl status)⟩

end HookRelay
