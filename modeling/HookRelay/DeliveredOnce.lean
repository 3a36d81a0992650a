import HookRelay.PostOnce

/-!
# When a pair is delivered at most once

The idempotency check looks for a success row. Two schedulers that publish one due entry put two
copies of a message in the topic, and a copy whose check runs before the other one's insert makes
its POST as well. The check suppresses the copies that come later, as long as the success row was
written and its endpoint is there. A response of success whose text cannot be decoded is no success
for the check, and is followed by a retry.
-/

namespace HookRelay

/-- The POSTs that are answered with success and recorded as such. -/
def PostKind.delivered (e p : UUID) : PostKind where
  eventId := e
  endpointId := p
  number _ := true
  status := (· = .success)

/-- The happening is a POST of the event to the endpoint, answered with a status of success. -/
def Happening.delivers (e p : UUID) : Happening → Bool
  | .posted _ post => post.eventId = e && post.endpointId = p && post.result.isSuccess
  | _ => false

/-- How many POSTs of the event to the endpoint were answered with success. -/
def State.deliveries (s : State) (e p : UUID) : Nat := s.store.history.countP (·.delivers e p)

/-- A POST of the pair is answered with a success whose text cannot be decoded. -/
def State.undecodes (s : State) (e p : UUID) (a : Action) : Bool :=
  match a with
  | .task i (.post result) => (s.delivery i).any (fun d => d.event.id = e && d.endpoint.id = p) &&
      result.isSuccess && !result.decoded
  | _ => false

/-- A call on the pair passes its check while another copy's POST is open or its success is not
recorded, or after a success whose row has gone with the endpoint. -/
def State.overlaps (s : State) (e p : UUID) (a : Action) : Bool :=
  match a with
  | .task i .select => (s.delivery i).any (fun d => d.event.id = e && d.endpoint.id = p) &&
      !s.store.db.hasSuccess e p &&
      (s.group.tasks.any (fun t => (PostKind.delivered e p).opened t.data ||
          (PostKind.delivered e p).unrecorded t.data) ||
        (p ∉ s.store.db.endpointIds && s.deliveries e p ≠ 0))
  | _ => false

/-- The insert of a success meets the row of a failure. -/
def State.losesSuccess (s : State) (e p : UUID) (a : Action) : Bool :=
  match a with
  | .task i .record => (s.delivery i).any (fun d =>
      (PostKind.delivered e p).unrecorded (.delivering d) && s.store.db.HasRow e p d.attemptNumber) &&
      !s.store.db.hasSuccess e p
  | _ => false

/-- No process dies, no call is interrupted, every success of the pair can be read, and the copies of
its messages are apart. -/
abbrev Apart (e p : UUID) (s : State) (a : Action) : Prop :=
  (a.crashFree && !s.undecodes e p a && !s.overlaps e p a && !s.losesSuccess e p a) = true

section

variable {cfg : Settings} {s s' : State} {a : Action} {e p : UUID}

theorem delivers_posted_iff {r : Record Message} {post : Post} :
    Happening.delivers e p (.posted r post) = true ↔
      post.eventId = e ∧ post.endpointId = p ∧ post.result.isSuccess = true := by
  simp [Happening.delivers, and_assoc]

/-- What is recorded as a success was one. -/
theorem delivers_of_covers {x : Happening} (h : (PostKind.delivered e p).covers x = true) :
    x.delivers e p = true := by
  cases x with
  | posted r post =>
    obtain ⟨he, hp, -, status⟩ := PostKind.covers_posted_iff.1 h
    have succeeded : post.result.succeeded = true := status
    rw [HttpResult.succeeded_eq, Bool.and_eq_true] at succeeded
    exact delivers_posted_iff.2 ⟨he, hp, succeeded.1⟩
  | recorded | scheduled | published => cases h

theorem hasSuccess_iff_covered {t : Tables} : t.hasSuccess e p = true ↔
    ∃ a ∈ t.attempts, (PostKind.delivered e p).coversRow a = true := by
  simp [Tables.hasSuccess_iff, PostKind.coversRow_iff, PostKind.delivered]

/-- Copies that are apart do not bring about a second success. -/
theorem Apart.guarded (h : Apart e p s a) :
    a.crashFree = true ∧ (PostKind.delivered e p).Guarded s a := by
  simp only [Apart, Bool.and_eq_true, Bool.not_eq_true'] at h
  obtain ⟨⟨⟨quiet, -⟩, overlaps⟩, loses⟩ := h
  refine ⟨quiet, ?_, ?_⟩
  · rintro i d rfl delivery admitted prior
    have pair : d.event.id = e ∧ d.endpoint.id = p :=
      (PostKind.admits_iff.1 admitted).imp_right And.left
    rw [pair.1, pair.2] at prior
    simp only [State.overlaps, delivery, pair, prior, decide_true, Option.any_some, Bool.and_self,
      Bool.not_false, Bool.true_and, Bool.or_eq_false_iff, List.any_eq_false, Bool.or_eq_true,
      not_or, Bool.not_eq_true] at overlaps
    refine ⟨overlaps.1, fun a ha => ?_, ?_⟩
    · by_contra covered
      have success := hasSuccess_iff_covered.2 ⟨a, ha, by simpa using covered⟩
      simp [success] at prior
    · have room := overlaps.2
      by_cases exist : p ∈ s.store.db.endpointIds
      · exact .inl exist
      · have none : s.deliveries e p = 0 := by simpa [exist] using room
        refine .inr (Nat.eq_zero_of_le_zero ?_)
        exact (List.countP_mono_left fun x _ => delivers_of_covers).trans none.le
  · rintro i d result rfl delivery admitted stage success taken
    have pair : d.event.id = e ∧ d.endpoint.id = p :=
      (PostKind.admits_iff.1 admitted).imp_right And.left
    have unrecorded : (PostKind.delivered e p).unrecorded (.delivering d) = true := by
      simp [PostKind.unrecorded, admitted, stage, success]
    rw [pair.1, pair.2] at taken
    simp only [State.losesSuccess, delivery, Option.any_some, unrecorded, taken, decide_true,
      Bool.and_self, Bool.true_and, Bool.not_eq_false'] at loses
    exact hasSuccess_iff_covered.1 loses

/-- While every success of the pair can be read, each of them is recorded as one. -/
theorem Apart.covers_step (apart : Apart e p s a) (hs : Transition cfg s a s')
    (h : ∀ x ∈ s.store.history, x.delivers e p = true → (PostKind.delivered e p).covers x = true) :
    ∀ x ∈ s'.store.history, x.delivers e p = true → (PostKind.delivered e p).covers x = true := by
  intro x hx delivers
  cases x with
  | posted r post =>
    rcases hs.made_cases hx with old | ⟨i, d, result, rfl, delivery, rfl⟩
    · exact h _ old delivers
    · obtain ⟨he, hp, success⟩ := delivers_posted_iff.1 delivers
      have he : d.event.id = e := he
      have hp : d.endpoint.id = p := hp
      have success : result.isSuccess = true := success
      have decoded : result.decoded = true := by
        simp only [Apart, Bool.and_eq_true, Bool.not_eq_true'] at apart
        simpa [State.undecodes, delivery, he, hp, success] using apart.1.1.2
      have succeeded : result.succeeded = true := by
        rw [HttpResult.succeeded_eq, success, decoded, Bool.and_self]
      exact PostKind.covers_posted_iff.2 ⟨he, hp, rfl, succeeded⟩
  | recorded | scheduled | published => cases delivers

/-- **When a pair is delivered at most once.** In every crash-free run in which no POST of the pair is
answered with a success whose text cannot be decoded, no call on the pair passes its idempotency check
between another one's check and the insert of its success, or after a success whose row has gone with
the endpoint, and no success meets the row of a failure of its number, at most one POST of the event to
the endpoint is answered with success. -/
theorem delivered_at_most_once {as : List Action}
    (run : Lts.Run (State.step cfg) (Apart e p) initial as s) : s.deliveries e p ≤ 1 := by
  have recorded : ∀ x ∈ s.store.history,
      x.delivers e p = true → (PostKind.delivered e p).covers x = true :=
    run.invariant (I := fun s => ∀ x ∈ s.store.history,
        x.delivers e p = true → (PostKind.delivered e p).covers x = true)
      (fun s a s' h apart hs => apart.covers_step (step_transition hs) h)
      (fun x none => absurd none List.not_mem_nil)
  exact (List.countP_mono_left recorded).trans
    (PostKind.made_at_most_once (run.mono fun _ _ => Apart.guarded))

end

/-- The first attempt fails, and the schedulers of two workers both publish the due entry. -/
def publishedTwice : List Action :=
  samplePublished ++ [.loop .spawn] ++ handOut 0 [sampleRecord 0 (.fanOut (.ofNat 2))] ++
    [.task 0 .resolve] ++ attempt 0 500 ++
    [.task 0 (.schedule 5), .finish 0 .returned, .scheduler 0 (.poll 5), .scheduler 1 (.poll 5),
      .scheduler 0 (.publish 0 1), .scheduler 1 (.publish 0 2), .scheduler 0 .cancel,
      .scheduler 1 .cancel] ++
    handOut 0 [sampleRecord 1 (.retry (.ofNat 2) (.ofNat 1) 1),
      sampleRecord 2 (.retry (.ofNat 2) (.ofNat 1) 1)] ++
    [.task 0 .resolve, .task 1 .resolve]

/-- Both copies pass their check before either inserts its row. -/
theorem delivered_twice :
    ¬ ∀ (cfg : Settings) (s : State) (as : List Action) (e p : UUID),
      Lts.Run (State.step cfg) Quiet initial as s → s.deliveries e p ≤ 1 := by
  intro claim
  obtain ⟨s, run, h⟩ := Lts.Run.of_check_any (C := fun _ a => a.crashFree && a.unattended)
    (s := initial) (p := fun s : State => decide (s.deliveries (.ofNat 2) (.ofNat 1) = 2))
    (show (Lts.check (State.step {}) _ _ (publishedTwice ++
      [.task 0 .select, .task 1 .select, .task 0 (.post (.response 200 [])),
        .task 1 (.post (.response 200 []))])).any _ = true by decide +kernel)
  have once := claim {} s _ (.ofNat 2) (.ofNat 1) run
  rw [of_decide_eq_true h] at once
  contradiction

/-- The second copy comes to its check after the first one has recorded its success. -/
theorem delivered_once_apart :
    ∃ s : State, s.group.log.countP (·.value = .retry (.ofNat 2) (.ofNat 1) 1) = 2 ∧
      s.deliveries (.ofNat 2) (.ofNat 1) = 1 ∧ s.deliveries (.ofNat 2) (.ofNat 1) ≤ 1 := by
  obtain ⟨s, run, h⟩ := Lts.Run.of_check_any
    (C := fun s a => a.crashFree && !s.undecodes (.ofNat 2) (.ofNat 1) a &&
      !s.overlaps (.ofNat 2) (.ofNat 1) a && !s.losesSuccess (.ofNat 2) (.ofNat 1) a) (s := initial)
    (p := fun s : State => decide (s.group.log.countP (·.value = .retry (.ofNat 2) (.ofNat 1) 1) = 2) &&
      decide (s.deliveries (.ofNat 2) (.ofNat 1) = 1))
    (show (Lts.check (State.step {}) _ _ (publishedTwice ++ attempt 0 200 ++
      [.task 1 .select])).any _ = true by decide +kernel)
  simp only [Bool.and_eq_true, decide_eq_true_eq] at h
  exact ⟨s, h.1, h.2, delivered_at_most_once run⟩

end HookRelay
