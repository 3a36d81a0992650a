import HookRelay.PostOnce
import HookRelay.RetryCycle

/-!
# A scheduled retry is published before it is removed

A scheduler publishes the message it polled and then removes the entry by its member, which by that
time may be an entry scheduled anew: removed, it was not published since. As long as no call
schedules under a member that a scheduler is about to cancel, the publish that an entry's removal
rests on comes after the entry's schedule.
-/

namespace HookRelay

/-- The message `_deliver_to_endpoint` schedules under the member. -/
def Member.message (k : Member) : Message := .retry k.eventId k.endpointId k.attemptNumber

/-- The call schedules a retry under a member that a scheduler has published and is about to
cancel. -/
def State.reschedules (s : State) : Action → Bool
  | .task i (.schedule _) =>
    (s.delivery i).any fun d => s.schedulers.any (·.cancels d.nextMember)
  | _ => false

/-- A step of `move_to_dlq`. -/
def Action.deadLetters : Action → Bool
  | .task _ (.insertDlq _) | .task _ (.cancel _) | .task _ (.notify _) => true
  | _ => false

abbrev OnlyRetries (_ : State) (a : Action) : Prop := (a.crashFree && !a.deadLetters) = true

abbrev InOrder (s : State) (a : Action) : Prop := (a.deadLetters || s.reschedules a) = false

/-- The happenings show a later schedule under the member or a publish of its message. -/
def Renewed (k : Member) (newer : List Happening) : Prop :=
  .scheduled k ∈ newer ∨ ∃ r, .published r ∈ newer ∧ r.value = k.message

/-- Since each schedule under the member, what is about to remove its entry has published it, and
an entry that is gone was published. -/
structure Published (k : Member) (s : State) : Prop where
  cancelling : ∀ sch ∈ s.schedulers, sch.cancels k = true → ∀ newer older,
    s.store.history = newer ++ .scheduled k :: older → Renewed k newer
  gone : ∀ newer older, s.store.history = newer ++ .scheduled k :: older →
    s.store.redis.Holds k ∨ Renewed k newer

section

variable {cfg : Settings} {s s' : State} {a : Action} {k : Member}

theorem Renewed.cons {newer : List Happening} (h : Renewed k newer) (x : Happening) :
    Renewed k (x :: newer) :=
  h.imp (List.mem_cons_of_mem x) fun ⟨r, hr, same⟩ => ⟨r, List.mem_cons_of_mem x hr, same⟩

/-! ## The messages of retries -/

/-- Under a member Redis holds the message that belongs to it. -/
theorem stored_message (reach : Reachable cfg s) :
    ∀ k m, s.store.redis.data.lookup k = some m → m = k.message := by
  refine reach.invariant (I := fun s => ∀ k m, s.store.redis.data.lookup k = some m → m = k.message)
    (fun s a s' h _ hs k m hm => ?_) fun k m hm => by cases hm
  cases step_transition hs with
  | schedulerCancel => exact h k m (RedisRetryScheduler.lookup_cancel hm)
  | task found moved =>
    rcases moved.message_cases hm with old | ⟨d, _, -, -, -, rfl, rfl⟩
    · exact h k m old
    · rfl
  | _ => exact h k m hm

/-- A message in circulation that names an endpoint is the one of some member. -/
theorem carried_message (reach : Reachable cfg s) :
    ∀ m, s.Carries m → ∀ p, m.endpointId = some p → ∃ k : Member, m = k.message := by
  refine reach.invariant
    (I := fun s => ∀ m, s.Carries m → ∀ p, m.endpointId = some p → ∃ k : Member, m = k.message)
    (fun s a s' h _ hs m hm p target => ?_) fun m hm => ?_
  · rcases (step_transition hs).message_cases hm with old | ⟨_, -, rfl⟩ | ⟨_, _, d, _, -, -, -, -, rfl⟩
    · exact h m old p target
    · cases target
    · exact ⟨d.nextMember, rfl⟩
  · rcases hm with ⟨r, hr, -⟩ | ⟨k, hk⟩ | ⟨sch, hsch, -⟩ <;> contradiction

/-- A message in circulation is the fan-out of an event or a retry under a number other than the first. -/
theorem carried_forms (reach : Reachable cfg s) :
    ∀ m, s.Carries m → (∃ e, m = .fanOut e) ∨ ∃ k : Member, m = k.message ∧ 1 ≤ k.attemptNumber := by
  refine reach.invariant
    (I := fun s => ∀ m, s.Carries m → (∃ e, m = .fanOut e) ∨ ∃ k : Member, m = k.message ∧ 1 ≤ k.attemptNumber)
    (fun s a s' h _ hs m hm => ?_) fun m hm => ?_
  · rcases (step_transition hs).message_cases hm with old | ⟨e, -, rfl⟩ | ⟨_, _, d, _, -, -, -, -, rfl⟩
    · exact h m old
    · exact .inl ⟨e, rfl⟩
    · exact .inr ⟨d.nextMember, rfl, Nat.le_add_left 1 _⟩
  · rcases hm with ⟨r, hr, -⟩ | ⟨k, hk⟩ | ⟨sch, hsch, -⟩ <;> contradiction

/-- A scheduler about to cancel a member has the member's message in hand. -/
theorem cancels_message (reach : Reachable cfg s) {sch : Scheduler} (hsch : sch ∈ s.schedulers)
    (cancels : sch.cancels k = true) : ∃ rest, sch = .cancelling k.message rest := by
  obtain ⟨m, rest, rfl, he, hp, hn⟩ := Scheduler.cancels_iff.1 cancels
  obtain ⟨k', rfl⟩ := carried_message reach m (.inr (.inr ⟨_, hsch, List.mem_cons_self⟩)) _ hp
  have hp : k'.endpointId = k.endpointId := Option.some.inj hp
  have same : k' = k := by
    cases k
    cases k'
    exact Member.mk.injEq .. ▸ ⟨he, hp, hn⟩
  exact ⟨rest, by rw [same]⟩

/-! ## The step -/

/-- The history grows by at most one happening, and by a schedule only in a call that schedules. -/
theorem Transition.history_cases (hs : Transition cfg s a s') :
    s'.store.history = s.store.history ∨ ∃ x, s'.store.history = x :: s.store.history ∧
      ∀ k, x = .scheduled k → s'.store.redis.Holds k ∧
        ∃ i retryAfter, a = .task i (.schedule retryAfter) ∧ ∃ d, s.delivery i = some d ∧
          d.nextMember = k := by
  cases hs with
  | requestPublish | relayPublish | schedulerPublish | duplicate =>
    exact .inr ⟨_, rfl, fun k hk => by cases hk⟩
  | @task i _ t _ _ found moved =>
    obtain ⟨worker, record, c⟩ := t
    cases moved with
    | post | record => exact .inr ⟨_, rfl, fun k hk => by cases hk⟩
    | @schedule d _ retryAfter =>
      refine .inr ⟨_, rfl, fun k hk => ?_⟩
      cases hk
      exact ⟨RedisRetryScheduler.holds_schedule.2 (.inl rfl), i, retryAfter, rfl, d,
        State.delivery_eq_some.2 ⟨_, found, rfl⟩, rfl⟩
    | _ => exact .inl rfl
  | _ => exact .inl rfl

/-- A schedule seen after a step was there before, or it is the one the step has made. -/
theorem Transition.schedule_cases (hs : Transition cfg s a s') {newer older : List Happening}
    (h : s'.store.history = newer ++ .scheduled k :: older) :
    (∃ newer₀, s.store.history = newer₀ ++ .scheduled k :: older ∧
      (Renewed k newer₀ → Renewed k newer)) ∨
    (s'.store.redis.Holds k ∧ ∃ i retryAfter, a = .task i (.schedule retryAfter) ∧
      ∃ d, s.delivery i = some d ∧ d.nextMember = k) := by
  rcases hs.history_cases with same | ⟨x, grown, scheduled⟩
  · exact .inl ⟨newer, same ▸ h, id⟩
  · rw [grown] at h
    cases newer with
    | nil =>
      obtain ⟨rfl, -⟩ := List.cons.inj h
      exact .inr (scheduled k rfl)
    | cons y newer =>
      obtain ⟨rfl, rest⟩ := List.cons.inj h
      exact .inl ⟨newer, rest, fun renewed => renewed.cons x⟩

/-- A publish that the step has made comes after every schedule seen. -/
theorem Renewed.of_published {newer older : List Happening} {r : Record Message}
    (h : .published r :: s.store.history = newer ++ .scheduled k :: older)
    (message : r.value = k.message) : Renewed k newer := by
  cases newer with
  | nil => cases (List.cons.inj h).1
  | cons y newer =>
    obtain ⟨rfl, -⟩ := List.cons.inj h
    exact .inr ⟨r, List.mem_cons_self, message⟩

/-- Who is about to cancel after a step was so before, unless the step is its publish. -/
theorem Published.cancelling_step (h : Published k s) (reach : Reachable cfg s)
    (hs : State.step cfg s a = some s') (ordered : s.reschedules a = false) {sch : Scheduler}
    (hsch : sch ∈ s'.schedulers) (cancels : sch.cancels k = true) {newer older : List Happening}
    (split : s'.store.history = newer ++ .scheduled k :: older) : Renewed k newer := by
  have hs' := step_transition hs
  obtain ⟨rest, rfl⟩ := cancels_message (reach.next trivial hs) hsch cancels
  rcases hs'.cancelling_cases hsch with old | ⟨p, o, -, grown⟩
  · rcases hs'.schedule_cases split with ⟨newer₀, before, renew⟩ | ⟨-, i, _, rfl, d, hd, rfl⟩
    · exact renew (h.cancelling _ old cancels newer₀ older before)
    · -- the scheduler that is about to cancel is one the schedule had to wait for
      have waits : s.schedulers.any (·.cancels d.nextMember) = true :=
        List.any_eq_true.2 ⟨_, old, cancels⟩
      simp [State.reschedules, hd, waits] at ordered
  · exact .of_published (grown ▸ split) rfl

theorem Published.step (h : Published k s) (reach : Reachable cfg s)
    (hs : State.step cfg s a = some s') (kept : InOrder s a) : Published k s' := by
  obtain ⟨alive, ordered⟩ := Bool.or_eq_false_iff.1 kept
  have hs' := step_transition hs
  constructor
  · intro sch hsch cancels newer older split
    exact h.cancelling_step reach hs ordered hsch cancels split
  · intro newer older split
    rcases hs'.schedule_cases split with ⟨newer₀, before, renew⟩ | ⟨held, -⟩
    · rcases h.gone newer₀ older before with held | renewed
      · rcases hs'.holds_cases held with still | ⟨i, t, d, rfl, -⟩ | ⟨w, m, rest, -, found, target⟩
        · exact .inl still
        · cases alive
        · have cancels := Scheduler.cancels_iff.2 ⟨m, rest, rfl, target⟩
          exact .inr (renew (h.cancelling _ (List.mem_of_getElem? found) cancels newer₀ older before))
      · exact .inr (renew renewed)
    · exact .inl held

theorem published_initial : Published k initial where
  cancelling _ hsch := by cases hsch
  gone newer older split := by cases newer <;> cases split

end

/-- As long as no call schedules under a member that a scheduler is about to cancel, an entry that
is gone from Redis was published, or scheduled anew, after it was scheduled. -/
theorem scheduled_retry_kept {cfg : Settings} {as : List Action} {s : State}
    (run : Lts.Run (State.step cfg) InOrder initial as s) {k : Member}
    {newer older : List Happening} (scheduled : s.store.history = newer ++ .scheduled k :: older) :
    s.store.redis.data.lookup k = some k.message ∨ Renewed k newer := by
  have published : Published k s := run.invariant_from
    (fun _ _ _ reach h kept hs => h.step reach hs kept) (.refl initial) published_initial
  refine (published.gone newer older scheduled).imp_left fun held => ?_
  obtain ⟨m, hm⟩ := Option.isSome_iff_exists.1 (AList.lookup_isSome.2 held)
  rw [hm, stored_message ⟨as, run.any⟩ k m hm]

/-! ## A lost retry -/

/-- The first delivery of the event failed; both schedulers polled its retry, published it and
cancelled it, and worker 0 processes the two copies. The call on the first one fails as well, and
scheduler 0 publishes the next retry. -/
def sampleCopies : List Action :=
  samplePublished ++ [.loop .spawn] ++ handOut 0 [sampleRecord 0 (.fanOut (.ofNat 2))] ++
    [.task 0 .resolve] ++ attempt 0 500 ++
    [.task 0 (.schedule 10), .finish 0 .returned, .scheduler 0 (.poll 10), .scheduler 1 (.poll 10),
      .scheduler 0 (.publish 0 1), .scheduler 1 (.publish 0 2), .scheduler 0 .cancel,
      .scheduler 1 .cancel] ++
    handOut 0 ([1, 2].map (sampleRecord · (.retry (.ofNat 2) (.ofNat 1) 1))) ++
    [.task 0 .resolve, .task 1 .resolve] ++ attempt 0 500 ++
    [.task 0 (.schedule 20), .scheduler 0 (.poll 20), .scheduler 0 (.publish 0 3)]

/-- The member the copies schedule. -/
def sampleMember : Member := ⟨.ofNat 2, .ofNat 1, 2⟩

/-- What happened last is a schedule under the member. -/
def State.justScheduled (s : State) (k : Member) : Bool :=
  s.store.history.head?.any fun
    | .scheduled k' => k' = k
    | _ => false

theorem State.justScheduled_iff {s : State} {k : Member} :
    s.justScheduled k = true ↔ ∃ older, s.store.history = .scheduled k :: older := by
  unfold State.justScheduled
  constructor
  · intro h
    obtain ⟨x, head, last⟩ := (Option.any_eq_true _ _).1 h
    obtain ⟨older, history⟩ := List.head?_eq_some_iff.1 head
    split at last
    · exact ⟨older, by rw [history, of_decide_eq_true last]⟩
    · cases last
  · rintro ⟨older, history⟩
    simp [history]

/-- The call on the second copy schedules the next retry again, before scheduler 0 cancels it. -/
theorem scheduled_retry_lost :
    ¬ ∀ (cfg : Settings) (as : List Action) (s : State),
      Lts.Run (State.step cfg) OnlyRetries initial as s → ∀ (k : Member) (newer older : List Happening),
        s.store.history = newer ++ .scheduled k :: older →
        s.store.redis.data.lookup k = some k.message ∨ Renewed k newer := by
  intro claim
  obtain ⟨s, run, h⟩ := Lts.Run.of_check_any (C := fun _ a => a.crashFree && !a.deadLetters) (s := initial)
    (p := fun s => s.justScheduled sampleMember && (s.store.redis.data.lookup sampleMember).isNone)
    (show (Lts.check (State.step {}) _ _ (sampleCopies ++ attempt 1 500 ++
      [.task 1 (.schedule 30), .scheduler 0 .cancel])).any _ = true by decide +kernel)
  have run := run.mono (D := OnlyRetries) fun s a h => by simpa using h
  rw [Bool.and_eq_true, State.justScheduled_iff, Option.isNone_iff_eq_none] at h
  obtain ⟨⟨older, history⟩, lost⟩ := h
  rcases claim {} _ s run sampleMember [] older history with held | again | ⟨r, hr, -⟩
  · rw [held] at lost
    cases lost
  · cases again
  · cases hr

/-- The copy is processed once scheduler 0 has cancelled: the retry scheduled last is in Redis. -/
theorem scheduled_retry_kept_once : ∃ (s : State) (k : Member) (older : List Happening),
    s.store.history = .scheduled k :: older ∧
      (s.store.redis.data.lookup k = some k.message ∨ Renewed k []) := by
  obtain ⟨s, run, h⟩ := Lts.Run.of_check_any
    (C := fun s a => !(a.deadLetters || s.reschedules a)) (s := initial)
    (p := fun s => s.justScheduled sampleMember)
    (show (Lts.check (State.step {}) _ _ (sampleCopies ++ [.scheduler 0 .cancel] ++ attempt 1 500 ++
      [.task 1 (.schedule 30)])).any _ = true by decide +kernel)
  have run := run.mono (D := InOrder) fun s a h => by simpa using h
  obtain ⟨older, history⟩ := State.justScheduled_iff.1 h
  exact ⟨s, sampleMember, older, history, scheduled_retry_kept run history⟩

end HookRelay
