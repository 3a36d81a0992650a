import HookRelay.Evolution

/-!
# Which retries a dead-lettered pair has left

`move_to_dlq` cancels the member of the attempt number its delivery was made under. A pair can
have an entry under another number when a second chain runs for it: a duplicate or re-queued
fan-out is dead-lettered at number 0 while the first chain waits for its next attempt.
-/

namespace HookRelay

/-- `move_to_dlq` of the delivery `d` cancels, with Redis available, in the step from `s` to `s'`. -/
structure State.Cancels (cfg : Settings) (s : State) (i : Nat) (d : Delivery) (s' : State) :
    Prop where
  delivery : s.delivery i = some d
  step : s.step cfg (.task i (.cancel true)) = some s'

/-- The step schedules a retry of the pair. -/
def State.schedules (s : State) (a : Action) (e p : UUID) : Bool :=
  match a with
  | .task i (.schedule _) => (s.delivery i).any fun d => d.event.id = e && d.endpoint.id = p
  | _ => false

abbrev NoSchedule (e p : UUID) (s : State) (a : Action) : Prop := s.schedules a e p = false

section

variable {cfg : Settings} {s s' : State} {a : Action} {e p : UUID}

/-- Nothing but a schedule of the pair gives it an entry. -/
theorem no_entry_step (h : ∀ n, ¬ s.store.redis.Holds ⟨e, p, n⟩) (hs : Transition cfg s a s')
    (quiet : NoSchedule e p s a) : ∀ n, ¬ s'.store.redis.Holds ⟨e, p, n⟩ := by
  intro n held
  rcases hs.held_cases held with held | ⟨i, retryAfter, t, d, result, rfl, found, hd, -, key⟩
  · exact h n held
  · have here : s.delivery i = some d := State.delivery_eq_some.2 ⟨t, found, hd⟩
    simp only [Delivery.nextMember, Member.mk.injEq] at key
    simp [NoSchedule, State.schedules, here, key.1, key.2.1] at quiet

theorem State.Cancels.redis {i : Nat} {d : Delivery} (h : s.Cancels cfg i d s') :
    s'.store.redis = s.store.redis.cancel d.member := by
  obtain ⟨t, found, hd⟩ := State.delivery_eq_some.1 h.delivery
  have hs := h.step
  simp only [State.step, State.taskStep, found, hd, Call.step, Delivery.cancel,
    Option.bind_eq_bind, Option.bind_some, Option.bind_eq_some_iff, Option.ite_none_right_eq_some,
    if_true, Option.some.injEq, Prod.exists, Prod.mk.injEq] at hs
  obtain ⟨st, c, ⟨-, rfl, -⟩, group, -, rfl⟩ := hs
  rfl

/-- **Which retries a dead-lettered pair has left.** After `move_to_dlq` has cancelled, and as long
as no call schedules a retry of the pair, Redis holds no retry entry of the pair under any number,
if and only if every entry it held when the cancel ran had the delivery's own attempt number. -/
theorem no_retry_left_iff {i : Nat} {d : Delivery} (h : s.Cancels cfg i d s') :
    (∀ as s'', Lts.Run (State.step cfg) (NoSchedule d.event.id d.endpoint.id) s' as s'' →
      ∀ n, ¬ s''.store.redis.Holds ⟨d.event.id, d.endpoint.id, n⟩) ↔
    ∀ n, s.store.redis.Holds ⟨d.event.id, d.endpoint.id, n⟩ → n = d.attemptNumber := by
  have after : ∀ n, s'.store.redis.Holds ⟨d.event.id, d.endpoint.id, n⟩ ↔
      n ≠ d.attemptNumber ∧ s.store.redis.Holds ⟨d.event.id, d.endpoint.id, n⟩ := fun n => by
    rw [h.redis, RedisRetryScheduler.holds_cancel]
    simp [Delivery.member]
  constructor
  · intro left n held
    by_contra other
    exact left [] s' (.nil s') n ((after n).2 ⟨other, held⟩)
  · intro own as s'' run
    refine run.invariant (I := fun s => ∀ n, ¬ s.store.redis.Holds ⟨d.event.id, d.endpoint.id, n⟩)
      (fun _ _ _ h quiet hs => no_entry_step h (step_transition hs) quiet) fun n held => ?_
    exact ((after n).1 held).1 (own n ((after n).1 held).2)

end

/-- The first chain fails with 500 and waits for attempt 1. A duplicate of the fan-out is answered
with 404 and dead-letters the pair at number 0. -/
def overtakenRetry : List Action :=
  samplePublished ++ handOut 0 [sampleRecord 0 (.fanOut (.ofNat 2))] ++ [.task 0 .resolve] ++
    attempt 0 500 ++
    [.task 0 (.schedule 5), .finish 0 .returned,
      .duplicate (sampleRecord 0 (.fanOut (.ofNat 2))) 0 1] ++
    handOut 0 [sampleRecord 1 (.fanOut (.ofNat 2))] ++ [.task 0 .resolve] ++ attempt 0 404

/-- The entry of the first chain outlives a `move_to_dlq` that nothing interrupts. -/
theorem retry_left_after_dlq :
    ¬ ∀ (cfg : Settings) (s₀ s₁ s₂ s₃ : State) (i : Nat) (d : Delivery) (id : UUID)
        (available : Bool), Reachable cfg s₀ → s₀.delivery i = some d →
      s₀.step cfg (.task i (.insertDlq id)) = some s₁ →
      s₁.step cfg (.task i (.cancel true)) = some s₂ →
      s₂.step cfg (.task i (.notify available)) = some s₃ →
      ∀ n, ¬ s₃.store.redis.Holds ⟨d.event.id, d.endpoint.id, n⟩ := by
  intro claim
  obtain ⟨s₀, run, h⟩ := Lts.Run.of_check_any (C := fun _ _ => true) (s := initial)
    (p := fun s₀ => (s₀.delivery 0).any fun d =>
      (s₀.step {} (.task 0 (.insertDlq (.ofNat 4)))).any fun s₁ =>
        (s₁.step {} (.task 0 (.cancel true))).any fun s₂ =>
          (s₂.step {} (.task 0 (.notify true))).any fun s₃ =>
            decide (s₃.store.redis.Holds ⟨d.event.id, d.endpoint.id, 1⟩))
    (show (Lts.check (State.step {}) _ _ overtakenRetry).any _ = true by decide +kernel)
  simp only [Option.any_eq_true, decide_eq_true_eq] at h
  obtain ⟨d, delivery, s₁, insert, s₂, cancel, s₃, notify, held⟩ := h
  exact claim {} s₀ s₁ s₂ s₃ 0 d (.ofNat 4) true ⟨_, run.any⟩ delivery insert cancel notify 1 held

/-- A retry is published, and dead-letters its pair before the scheduler has cancelled its entry. -/
def buriedRetry : List Action :=
  samplePublished ++ handOut 0 [sampleRecord 0 (.fanOut (.ofNat 2))] ++ [.task 0 .resolve] ++
    attempt 0 500 ++
    [.task 0 (.schedule 5), .finish 0 .returned, .scheduler 0 (.poll 5), .scheduler 0 (.publish 0 1)] ++
    handOut 0 [sampleRecord 1 (.retry (.ofNat 2) (.ofNat 1) 1)] ++ [.task 0 .resolve] ++
    attempt 0 404 ++ [.task 0 (.insertDlq (.ofNat 4))]

/-- Its own entry is the only one, and goes. -/
theorem no_retry_left_second :
    ∃ (s s' : State) (d : Delivery), s.Cancels {} 0 d s' ∧
      s.store.redis.Holds ⟨d.event.id, d.endpoint.id, 1⟩ ∧
      ∀ as s'', Lts.Run (State.step {}) (NoSchedule d.event.id d.endpoint.id) s' as s'' →
        ∀ n, ¬ s''.store.redis.Holds ⟨d.event.id, d.endpoint.id, n⟩ := by
  obtain ⟨s, run, h⟩ := Lts.Run.of_check_any (C := fun _ _ => true) (s := initial)
    (p := fun s => (s.delivery 0).any fun d => (s.step {} (.task 0 (.cancel true))).isSome &&
      decide (d.attemptNumber = 1) && decide (s.store.redis.data.keys = [d.member]))
    (show (Lts.check (State.step {}) _ _ buriedRetry).any _ = true by decide +kernel)
  simp only [Option.any_eq_true, Bool.and_eq_true, decide_eq_true_eq, Option.isSome_iff_exists] at h
  obtain ⟨d, delivery, ⟨⟨s', step⟩, number⟩, keys⟩ := h
  have own : ∀ n, s.store.redis.Holds ⟨d.event.id, d.endpoint.id, n⟩ ↔ n = d.attemptNumber := fun n => by
    rw [RedisRetryScheduler.Holds, AList.mem_keys, keys]
    simp [Delivery.member]
  have cancels : s.Cancels {} 0 d s' := ⟨delivery, step⟩
  exact ⟨s, s', d, cancels, (own 1).2 number.symm, (no_retry_left_iff cancels).2 fun n => (own n).1⟩

end HookRelay
