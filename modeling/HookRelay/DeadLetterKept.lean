import HookRelay.Requeue

/-!
# When re-queueing keeps a dead letter

A request publishes its record before it deletes the pair's dead letter. A call on the record can
fail for good in between; its own insert then conflicts with the row that is about to go, and the
pair is left with nothing. An insert that comes later waits for the request or finds no row.
-/

namespace HookRelay

/-- Besides the request `i` and the calls on its record `r`, nothing touches the pair: no operator,
no patch or deletion of the endpoint, no other request, no scheduler, no call on another record of
the event. -/
def State.isolates (s : State) (i : Nat) (r : Record Message) (e p : UUID) (a : Action) : Bool :=
  a.unattended && a.spares p && match a with
  | .request j _ => j = i
  | .scheduler _ _ => false
  | .task j _ => s.group.tasks[j]?.all fun t => t.record = r || t.record.value.eventId ≠ e
  | _ => true

/-- The request has published and not yet deleted. -/
def RequestStage.isPublished : RequestStage → Bool
  | .published _ => true
  | _ => false

/-- A call inserts a dead letter of the pair between the request's publish and its `DELETE`. -/
def State.insertsEarly (s : State) (i : Nat) (e p : UUID) (a : Action) : Bool :=
  match a with
  | .task j (.insertDlq _) =>
    (s.delivery j).any (fun d => d.event.id = e && d.endpoint.id = p) &&
      s.store.requests[i]?.any (·.stage.isPublished)
  | _ => false

abbrev Isolated (i : Nat) (r : Record Message) (e p : UUID) (s : State) (a : Action) : Prop :=
  s.isolates i r e p a = true

abbrev IsolatedInOrder (i : Nat) (r : Record Message) (e p : UUID) (s : State) (a : Action) :
    Prop :=
  (s.isolates i r e p a && !s.insertsEarly i e p a) = true

/-- What an isolated step is not. -/
structure Isolation (i : Nat) (r : Record Message) (e p : UUID) (s : State) (a : Action) : Prop where
  quiet : Undisturbed p s a
  request : ∀ j b, a = .request j b → j = i
  scheduler : ∀ w b, a ≠ .scheduler w b
  task : ∀ j b t, a = .task j b → s.group.tasks[j]? = some t →
    t.record = r ∨ t.record.value.eventId ≠ e

/-- The pair is delivered, waits for a retry, or has a dead letter that no request deletes. -/
def State.Kept (s : State) (i : Nat) (e p : UUID) : Prop :=
  s.store.Answered e p ∨ s.store.redis.Holds ⟨e, p, 1⟩ ∨
    (s.store.db.HasDlq e p ∧ ∃ q, s.store.requests[i]? = some q ∧ q.isOpen = false)

/-- The request `i` re-queues the dead letter `x` with the record `r`. -/
structure Requeueing (i : Nat) (r : Record Message) (x : DLQEntry) (s : State) : Prop where
  value : r.value = .fanOut x.eventId
  pair : s.store.db.Matches x.eventId x.endpointId
  request : ∃ q, s.store.requests[i]? = some q ∧ q.eventId = x.eventId ∧
    (q.kind = .retry ∨ q.kind = .replay x.id) ∧ q.stage ≠ .locked ∧
    (∀ r rows, q.stage = .deleted r rows → x.id ∈ rows) ∧ (q.isOpen = true → x ∈ s.store.db.dlq)
  deadLettered : ∀ t ∈ s.group.tasks, t.record = r → ∀ d, t.data = .delivering d →
    d.stage = .cancelling ∨ d.stage = .notifying → d.endpoint.id = x.endpointId →
    s.Kept i x.eventId x.endpointId
  processed : r ∈ s.group.processed → s.Kept i x.eventId x.endpointId
  past : ∀ t ∈ s.group.tasks, t.record = r → t.data.Past x.endpointId →
    s.Kept i x.eventId x.endpointId

section

variable {cfg : Settings} {s s' : State} {a : Action} {i : Nat} {r : Record Message} {x : DLQEntry}
  {e p : UUID}

theorem Isolated.spec (h : Isolated i r e p s a) : Isolation i r e p s a := by
  simp only [Isolated, State.isolates, Bool.and_eq_true] at h
  refine ⟨by simpa [Undisturbed] using h.1, ?_, ?_, ?_⟩
  · rintro j b rfl; simpa using h.2
  · rintro w b rfl; simp at h
  · rintro j b t rfl found; simpa [found, or_iff_not_imp_left] using h.2

/-- A request that is over stays over. -/
theorem closed_step (hs : Transition cfg s a s')
    (closed : ∃ q, s.store.requests[i]? = some q ∧ q.isOpen = false) :
    ∃ q, s'.store.requests[i]? = some q ∧ q.isOpen = false := by
  obtain ⟨q, hq, closed⟩ := closed
  obtain ⟨stage, found, moved⟩ := hs.request_at hq
  refine ⟨_, found, ?_⟩
  rcases moved with ⟨rfl, -⟩ | ⟨b, -, moved⟩
  · exact closed
  · cases moved with
    | publish _ _ stage | delete stage | commit stage => simp [Request.isOpen, stage] at closed
    | abort => rfl

/-- What a call inserts, or leaves because it conflicts, outlives the request: an insert between
the publish and the `DELETE` is excluded, and one between the `DELETE` and the commit waits. -/
theorem Requeueing.insert_kept (h : Requeueing i r x s) {j : Nat} {id : UUID} {d : Delivery}
    (order : s.insertsEarly i x.eventId x.endpointId (.task j (.insertDlq id)) = false)
    (found : s.delivery j = some d) (he : d.event.id = x.eventId)
    (hp : d.endpoint.id = x.endpointId)
    (settled : ∀ y ∈ s.store.db.dlq, y.eventId = d.event.id → y.endpointId = d.endpoint.id →
      s.store.dlqDeleting y.id = false) :
    ∃ q, s.store.requests[i]? = some q ∧ q.isOpen = false := by
  obtain ⟨q, hq, -, -, behind, rows, open_⟩ := h.request
  refine ⟨q, hq, ?_⟩
  cases stage : q.stage with
  | locked => exact absurd stage behind
  | published => simp [State.insertsEarly, found, he, hp, hq, stage, RequestStage.isPublished] at order
  | deleted r' rs =>
    have here := open_ (by simp [Request.isOpen, stage])
    have blocked := settled x here he.symm hp.symm
    simp only [Store.dlqDeleting, List.any_eq_false] at blocked
    exact absurd (by simpa [Request.deleting, stage] using rows _ _ stage)
      (blocked q (List.mem_of_getElem? hq))
  | committed | aborted => simp [Request.isOpen, stage]

section Step

variable (h : Requeueing i r x s) (inv : ConsumerGroup.Inv (fun _ => 0) s.group)
  (prov : Provenance s) (hs : Transition cfg s a s')
  (iso : Isolation i r x.eventId x.endpointId s a)
include hs iso

/-- A dead letter of the pair stays, unless the request's commit deletes it. -/
theorem Isolation.dlq_kept {y : DLQEntry} (hy : y ∈ s.store.db.dlq)
    (hp : y.endpointId = x.endpointId) : y ∈ s'.store.db.dlq ∨
      ∃ q r rows, a = .request i .commit ∧ s.store.requests[i]? = some q ∧
        q.stage = .deleted r rows := by
  have quiet := iso.quiet
  rcases hs.dlq_kept hy with kept | rfl | ⟨rfl, -⟩ | ⟨j, q, r', rows, rfl, found, stage, -⟩
  · exact .inl kept
  · simp [Undisturbed, Action.spares, hp] at quiet
  · simp [Undisturbed, Action.unattended] at quiet
  · cases iso.request j _ rfl
    exact .inr ⟨q, r', rows, rfl, found, stage⟩

include h prov in
theorem Requeueing.kept_mono (hk : s.Kept i x.eventId x.endpointId) :
    s'.Kept i x.eventId x.endpointId := by
  rcases hk with answered | held | ⟨⟨y, hy, he, hp⟩, closed⟩
  · exact .inl (answered.mono hs)
  · refine .inr (.inl ?_)
    rcases hs.holds_cases held with held | ⟨j, t, d, ha, found, hd, stage, key⟩ |
      ⟨w, m, rest, ha, -⟩
    · exact held
    · -- Calls on the record cancel number 0, and the others are of another event.
      have from_ := prov.calls t (List.mem_of_getElem? found) d hd
      simp only [Delivery.member, Member.mk.injEq] at key
      rcases iso.task j _ t ha found with hr | other
      · have : d.attemptNumber = 0 := by rw [from_.attempt, hr, h.value]; rfl
        omega
      · exact absurd (from_.event ▸ key.1) other
    · exact absurd ha (iso.scheduler w _)
  · obtain ⟨q, hq, ended⟩ := closed
    rcases iso.dlq_kept hs hy hp with kept | ⟨q', r', rows, -, found, stage⟩
    · exact .inr (.inr ⟨⟨y, kept, he, hp⟩, closed_step hs ⟨q, hq, ended⟩⟩)
    · cases hq.symm.trans found
      simp [Request.isOpen, stage] at ended

include h in
theorem Requeueing.request_step : ∃ q, s'.store.requests[i]? = some q ∧ q.eventId = x.eventId ∧
    (q.kind = .retry ∨ q.kind = .replay x.id) ∧ q.stage ≠ .locked ∧
    (∀ r rows, q.stage = .deleted r rows → x.id ∈ rows) ∧
    (q.isOpen = true → x ∈ s'.store.db.dlq) := by
  obtain ⟨q, hq, event, kind, behind, rows, open_⟩ := h.request
  obtain ⟨stage, found, moved⟩ := hs.request_at hq
  have stay : q.isOpen = true → (∀ b, a = .request i b → b ≠ .commit) → x ∈ s'.store.db.dlq := by
    intro here other
    refine (iso.dlq_kept hs (open_ here) rfl).resolve_right ?_
    rintro ⟨_, _, _, ha, -⟩
    exact other _ ha rfl
  refine ⟨_, found, event, kind, ?_⟩
  rcases moved with ⟨rfl, other⟩ | ⟨b, rfl, moved⟩
  · exact ⟨behind, rows, fun here => stay here fun b ha => absurd ha (other b)⟩
  · cases moved with
    | publish _ _ stage => exact absurd stage behind
    | delete stage =>
      have here : q.isOpen = true := by simp [Request.isOpen, stage]
      refine ⟨by simp, ?_, fun _ => stay here fun b ha => by cases ha; simp⟩
      rintro _ _ ⟨⟩
      rcases kind with kind | kind
      · simpa [State.deletes, kind] using ⟨x, ⟨open_ here, event.symm⟩, rfl⟩
      · simp [State.deletes, kind]
    | commit => exact ⟨by simp, by rintro _ _ ⟨⟩, by rintro ⟨⟩⟩
    | abort => exact ⟨by simp, by rintro _ _ ⟨⟩, by rintro ⟨⟩⟩

variable (order : s.insertsEarly i x.eventId x.endpointId a = false)

include h inv prov order in
theorem Requeueing.deadLettered_step : ∀ t ∈ s'.group.tasks, t.record = r →
    ∀ d, t.data = .delivering d → d.stage = .cancelling ∨ d.stage = .notifying →
    d.endpoint.id = x.endpointId → s'.Kept i x.eventId x.endpointId := by
  intro t' ht hr d' hd stage hp
  rcases hs.task_cases inv ht with old | ⟨new, -⟩ | ⟨j, b, t, ha, found, record, moved⟩
  · exact h.kept_mono prov hs iso (h.deadLettered t' old hr d' hd stage hp)
  · rw [new] at hd; cases hd
  have ht := List.mem_of_getElem? found
  obtain ⟨d, hd, event, endpoint, here⟩ := moved.deadLettered hd stage
  rw [endpoint] at hp
  rcases here with stage | ⟨⟨id, rfl⟩, here, settled⟩
  · exact h.kept_mono prov hs iso
      (h.deadLettered t ht (record ▸ hr) d hd (.inl stage) hp)
  · have he : d.event.id = x.eventId := by
      rw [(prov.calls t ht d hd).event, ← record, hr, h.value, Message.fanOut_eventId]
    have ended := h.insert_kept (ha ▸ order) (State.delivery_eq_some.2 ⟨t, found, hd⟩) he hp settled
    rw [he, hp] at here
    exact .inr (.inr ⟨here, closed_step hs ended⟩)

include h inv prov in
theorem Requeueing.past_step : ∀ t ∈ s'.group.tasks, t.record = r → t.data.Past x.endpointId →
    s'.Kept i x.eventId x.endpointId := by
  intro t' ht hr past
  rcases hs.task_cases inv ht with old | ⟨new, -⟩ | ⟨j, b, t, -, found, record, moved⟩
  · exact h.kept_mono prov hs iso (h.past t' old hr past)
  · rw [new] at past; cases past
  have ht := List.mem_of_getElem? found
  rw [hr] at record
  have value : t.record.value = .fanOut x.eventId := record ▸ h.value
  have resolved : t.data = .resolving → ¬ t'.data.Past x.endpointId := by
    intro hres
    rw [hres] at moved
    rw [moved.resolving.2, value]
    exact h.pair.not_past s.store.db.valid ⟨rfl, .inl rfl⟩
  rcases moved.past (prov.calls t ht) (by rw [value, Message.fanOut_eventId]) resolved past with already | passes
  · exact h.kept_mono prov hs iso (h.past t ht record.symm already)
  generalize hc : t.data = c at passes
  cases passes with
  | prior success => exact .inl ((prov.of_hasSuccess success).mono hs)
  | success endpoint stage success =>
    have answered := prov.of_succeeded ht hc stage success
    rw [(prov.calls t ht _ hc).event, value, endpoint] at answered
    exact .inl (answered.mono hs)
  | scheduled _ _ held => rw [value] at held; exact .inr (.inl held)
  | deadLettered endpoint stage =>
    exact h.kept_mono prov hs iso
      (h.deadLettered t ht record.symm _ hc (.inr stage) endpoint)

include h inv prov order in
theorem Requeueing.step : Requeueing i r x s' where
  value := h.value
  pair := matches_step hs (Bool.and_eq_true_iff.1 iso.quiet).2 h.pair
  request := h.request_step hs iso
  deadLettered := h.deadLettered_step inv prov hs iso order
  processed hp := by
    apply h.kept_mono prov hs iso
    rcases hs.processed_cases hp with old | ⟨j, t, -, found, record, ended⟩
    · exact h.processed old
    · exact h.past t (List.mem_of_getElem? found) record (by rw [ended]; trivial)
  past := h.past_step inv prov hs iso

end Step

/-- **When re-queueing keeps a dead letter.** A request re-queues the dead letter of a pair whose
endpoint is enabled and subscribed; only the request and the calls on its record touch the pair.
If no call inserts a dead letter of the pair between the request's publish and its `DELETE`, then
from the moment the record is processed, whether the request commits before or after, the pair has
a successful POST, a retry entry or a dead letter. -/
theorem requeued_never_lost {s₀ s₁ : State} {as : List Action} {q : Request}
    (reach : Reachable cfg s₀) (found : s₀.store.requests[i]? = some q) (hx : x ∈ s₀.store.db.dlq)
    (event : q.eventId = x.eventId) (kind : q.kind = .retry ∨ q.kind = .replay x.id)
    (pair : s₀.store.db.Matches x.eventId x.endpointId)
    (publish : s₀.step cfg (.request i (.publish r.partition r.offset)) = some s₁)
    (value : r.value = .fanOut x.eventId)
    (run : Lts.Run (State.step cfg) (IsolatedInOrder i r x.eventId x.endpointId) s₁ as s)
    (processed : r ∈ s.group.processed) :
    s.store.Answered x.eventId x.endpointId ∨
      (∃ n, s.store.redis.Holds ⟨x.eventId, x.endpointId, n⟩) ∨
      s.store.db.HasDlq x.eventId x.endpointId := by
  have hs := step_transition publish
  have unseen := unseen_of_publish (group_inv reach) (provenance reach) hs
  obtain ⟨stage, found₁, moved⟩ := hs.request_at found
  have db : s₁.store.db = s₀.store.db := by cases hs; rfl
  have start : Requeueing i r x s₁ := {
    value
    pair := db ▸ pair
    request := by
      refine ⟨_, found₁, event, kind, ?_⟩
      rcases moved with ⟨-, other⟩ | ⟨b, hb, moved⟩
      · exact absurd rfl (other _)
      · cases hb
        cases moved
        exact ⟨by simp, by rintro _ _ ⟨⟩, fun _ => db ▸ hx⟩
    deadLettered := fun t ht hr => absurd hr (unseen.2 t ht)
    processed := fun hp => absurd hp unseen.1
    past := fun t ht hr => absurd hr (unseen.2 t ht) }
  have inv : Requeueing i r x s :=
    run.invariant_from (fun s a s' reach h ok hs => by
      obtain ⟨iso, order⟩ := Bool.and_eq_true_iff.1 ok
      exact h.step (group_inv reach) (provenance reach) (step_transition hs)
        (Isolated.spec iso) (by simpa using order)) (reach.next trivial publish) start
  rcases inv.processed processed with answered | held | ⟨dlq, -⟩
  · exact .inl answered
  · exact .inr (.inl ⟨1, held⟩)
  · exact .inr (.inr dlq)

end

/-- The record the requests of the two runs below publish. -/
def requeuedRecord : Record Message := sampleRecord 1 (.fanOut (.ofNat 2))

/-- The record is processed, and answered with 404 again, before the request deletes. -/
def overtakenDelete : List Action :=
  handOut 0 [requeuedRecord] ++ [.task 0 .resolve] ++ attempt 0 404 ++
    [.task 0 (.insertDlq (.ofNat 5)), .task 0 (.cancel true), .task 0 (.notify true),
      .finish 0 .returned, .request 0 .delete, .request 0 .commit]

/-- After the run a request about a dead letter of the sample event publishes, and the rest is guarded. -/
theorem requeuing_of_check (as rest : List Action) (guard : DLQEntry → State → Action → Bool)
    (p : DLQEntry → State → Bool)
    (h : (Lts.check (State.step {}) (fun _ _ => true) initial as).any (fun s₀ =>
      s₀.store.requests[0]?.any fun q => s₀.store.db.dlq.any fun x =>
        decide (q.eventId = x.eventId ∧ (q.kind = .retry ∨ q.kind = .replay x.id) ∧
          s₀.store.db.Matches x.eventId x.endpointId ∧ x.eventId = .ofNat 2) &&
        (s₀.step {} (.request 0 (.publish 0 1))).any fun s₁ =>
          (Lts.check (State.step {}) (guard x) s₁ rest).any (p x)) = true) :
    ∃ s₀ q x s₁ s, Reachable {} s₀ ∧ s₀.store.requests[0]? = some q ∧ x ∈ s₀.store.db.dlq ∧
      q.eventId = x.eventId ∧ (q.kind = .retry ∨ q.kind = .replay x.id) ∧
      s₀.store.db.Matches x.eventId x.endpointId ∧ requeuedRecord.value = .fanOut x.eventId ∧
      s₀.step {} (.request 0 (.publish 0 1)) = some s₁ ∧
      Lts.Run (State.step {}) (fun s a => guard x s a = true) s₁ rest s ∧ p x s = true := by
  obtain ⟨s₀, run, h⟩ := Lts.Run.of_check_any h
  simp only [Option.any_eq_true, List.any_eq_true, Bool.and_eq_true, decide_eq_true_eq] at h
  obtain ⟨q, hq, x, hx, ⟨event, kind, pair, he⟩, s₁, publish, s, inner, h⟩ := h
  have value : requeuedRecord.value = .fanOut x.eventId := by
    rw [he]
    rfl
  exact ⟨s₀, q, x, s₁, s, ⟨_, run.any⟩, hq, hx, event, kind, pair, value, publish, .of_check inner, h⟩

/-- The pair is left with nothing. -/
theorem requeued_can_be_lost :
    ¬ ∀ (cfg : Settings) (s₀ s₁ s : State) (i : Nat) (r : Record Message) (x : DLQEntry)
        (q : Request) (as : List Action), Reachable cfg s₀ →
      s₀.store.requests[i]? = some q → x ∈ s₀.store.db.dlq → q.eventId = x.eventId →
      (q.kind = .retry ∨ q.kind = .replay x.id) →
      s₀.store.db.Matches x.eventId x.endpointId →
      s₀.step cfg (.request i (.publish r.partition r.offset)) = some s₁ →
      r.value = .fanOut x.eventId →
      Lts.Run (State.step cfg) (Isolated i r x.eventId x.endpointId) s₁ as s →
      (∃ q rows, s.store.requests[i]? = some q ∧ q.stage = .committed r rows) →
      r ∈ s.group.processed →
      s.store.Answered x.eventId x.endpointId ∨
        (∃ n, s.store.redis.Holds ⟨x.eventId, x.endpointId, n⟩) ∨
        s.store.db.HasDlq x.eventId x.endpointId := by
  intro claim
  have check := requeuing_of_check (sampleDeadLetter ++ [.replayDlq (.ofNat 4)]) overtakenDelete
    (fun x s a => s.isolates 0 requeuedRecord x.eventId x.endpointId a)
    (fun x s => s.store.requests[0]?.any
        (fun q => decide (q.stage = .committed requeuedRecord [x.id])) &&
      decide (requeuedRecord ∈ s.group.processed ∧
        ¬ s.store.Answered x.eventId x.endpointId ∧
        ¬ s.store.db.HasDlq x.eventId x.endpointId) && s.store.redis.data.keys.isEmpty)
  obtain ⟨s₀, q, x, s₁, s, reach, hq, hx, event, kind, pair, value, publish, inner, h⟩ :=
    check (by decide +kernel)
  simp only [Option.any_eq_true, Bool.and_eq_true, decide_eq_true_eq, List.isEmpty_iff] at h
  obtain ⟨⟨⟨q', hq', stage⟩, processed, unanswered, gone⟩, empty⟩ := h
  rcases claim {} s₀ s₁ s 0 requeuedRecord x q _ reach hq hx event kind pair publish value inner
    ⟨q', _, hq', stage⟩ processed with answered | ⟨n, held⟩ | dlq
  · exact unanswered answered
  · rw [RedisRetryScheduler.Holds, AList.mem_keys, empty] at held
    cases held
  · exact gone dlq

/-- The record is answered with 404 again after the request has committed. -/
def requeueInOrder : List Action :=
  [.request 0 .delete, .request 0 .commit] ++ handOut 0 [requeuedRecord] ++ [.task 0 .resolve] ++
    attempt 0 404 ++
    [.task 0 (.insertDlq (.ofNat 5)), .task 0 (.cancel true), .task 0 (.notify true),
      .finish 0 .returned]

/-- The pair is dead-lettered again. -/
theorem requeued_not_lost_in_order :
    ∃ (s₁ s : State) (x : DLQEntry),
      Lts.Run (State.step {}) (IsolatedInOrder 0 requeuedRecord x.eventId x.endpointId) s₁
        requeueInOrder s ∧
      (s.store.Answered x.eventId x.endpointId ∨
        (∃ n, s.store.redis.Holds ⟨x.eventId, x.endpointId, n⟩) ∨
        s.store.db.HasDlq x.eventId x.endpointId) := by
  have check := requeuing_of_check (sampleDeadLetter ++ [.retryEvent (.ofNat 2)]) requeueInOrder
    (fun x s a => s.isolates 0 requeuedRecord x.eventId x.endpointId a &&
      !s.insertsEarly 0 x.eventId x.endpointId a)
    (fun _ s => decide (requeuedRecord ∈ s.group.processed))
  obtain ⟨s₀, q, x, s₁, s, reach, hq, hx, event, kind, pair, value, publish, inner, h⟩ :=
    check (by decide +kernel)
  exact ⟨s₁, s, x, inner, requeued_never_lost reach hq hx event kind pair publish value inner
    (of_decide_eq_true h)⟩

end HookRelay
