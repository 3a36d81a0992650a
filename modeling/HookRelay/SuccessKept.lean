import HookRelay.Evolution

/-!
# When a successful delivery is remembered

The attempt row is inserted `ON CONFLICT DO NOTHING`. A manual retry, a replay or a duplicate
starts the pair again at numbers that may have a row already, so a success can meet the failure
row of its number and leave no trace. A response of success whose text cannot be decoded is recorded
as a failure. Otherwise the success row is written, and then it stays as long as the endpoint.
-/

namespace HookRelay

/-- The call of task `i` has a response of success in the delivery `d`, and the step from `s` to `s'`
inserts its attempt row. -/
structure State.Succeeds (cfg : Settings) (s : State) (i : Nat) (d : Delivery) (result : HttpResult)
    (s' : State) : Prop where
  delivery : s.delivery i = some d
  stage : d.stage = .recording result
  success : result.isSuccess = true
  step : s.step cfg (.task i .record) = some s'

/-- The pair has a success row, and every delivery of it that selects now returns without a POST. -/
structure State.Remembers (cfg : Settings) (s : State) (e p : UUID) : Prop where
  row : s.store.db.hasSuccess e p = true
  skips : ∀ i d s', s.delivery i = some d → d.event.id = e → d.endpoint.id = p →
    s.step cfg (.task i .select) = some s' → s'.call i = some d.next

/-- The endpoint is not deleted. -/
abbrev Keeps (p : UUID) (_ : State) (a : Action) : Prop := a ≠ .deleteEndpoint p

section

variable {cfg : Settings} {s s' : State} {e p : UUID}

/-- The success row itself is what every later idempotency check finds. -/
theorem State.remembers_of_hasSuccess (h : s.store.db.hasSuccess e p = true) :
    s.Remembers cfg e p := by
  refine ⟨h, fun i d s' delivery he hp hs => ?_⟩
  obtain ⟨t, found, data⟩ := State.delivery_eq_some.1 delivery
  simp only [State.step, State.taskStep, found, data, Call.step, Delivery.select, he, hp, h,
    ConsumerGroup.advance, Option.bind_eq_bind, Option.bind_some] at hs
  obtain ⟨stage, -⟩ : d.stage = .checking ∧ True := ⟨by by_contra hne; simp [hne] at hs, trivial⟩
  simp only [stage, if_true, Option.bind_some, Option.some.injEq] at hs
  subst hs
  have := (List.getElem?_eq_some_iff.1 found).1
  simp [State.call, this]

/-- A success row stays as long as its endpoint. -/
theorem hasSuccess_kept {as : List Action} (run : Lts.Run (State.step cfg) (Keeps p) s as s')
    (h : s.store.db.hasSuccess e p = true) : s'.store.db.hasSuccess e p = true := by
  refine run.invariant (I := fun s => s.store.db.hasSuccess e p = true)
    (fun s a s' h kept hs => ?_) h
  have hs := step_transition hs
  obtain ⟨row, hr, -, rfl, -⟩ := Tables.hasSuccess_iff.1 h
  have exist := s.store.db.valid.attempts_endpoint_fkey row hr
  exact hs.evolves.hasSuccess h (hs.endpoint_kept exist kept)

/-- What the insert of the attempt row does: it keeps the tables when its number is taken, and writes
the outcome of the attempt otherwise. -/
theorem State.Succeeds.insert {i : Nat} {d : Delivery} {result : HttpResult}
    (h : s.Succeeds cfg i d result s') :
    (s.store.db.HasRow d.event.id d.endpoint.id d.attemptNumber ∧ s'.store.db = s.store.db) ∨
      (¬ s.store.db.HasRow d.event.id d.endpoint.id d.attemptNumber ∧
        s'.store.db.attempts = s.store.db.attempts ++ [d.row result]) := by
  obtain ⟨t, found, data⟩ := State.delivery_eq_some.1 h.delivery
  have hs := h.step
  simp only [State.step, State.taskStep, found, data, Call.step, Option.bind_eq_bind,
    Option.bind_some, Option.bind_eq_some_iff, Option.some.injEq, Prod.exists] at hs
  obtain ⟨st, c, moved, group, -, rfl⟩ := hs
  have moved : Moves cfg s.store t.record (.delivering d) .record st c := d.record_moves moved
  cases moved with
  | conflict _ taken => exact .inl ⟨taken, rfl⟩
  | record stage free _ _ tables =>
    cases h.stage.symm.trans stage
    refine .inr ⟨free, ?_⟩
    rw [Store.log, tables]

/-- Behind the rows there were, the row of the attempt is one of success if its text was decoded. -/
theorem State.Succeeds.hasSuccess_iff {i : Nat} {d : Delivery} {result : HttpResult}
    (h : s.Succeeds cfg i d result s') :
    s'.store.db.hasSuccess d.event.id d.endpoint.id = true ↔
      s.store.db.hasSuccess d.event.id d.endpoint.id = true ∨
        (result.decoded = true ∧ ¬ s.store.db.HasRow d.event.id d.endpoint.id d.attemptNumber) := by
  have recorded : (d.row result).status = .success ↔ result.decoded = true := by
    rw [show (d.row result).status = result.attemptStatus from rfl, ← HttpResult.succeeded_iff,
      HttpResult.succeeded_eq, h.success, Bool.true_and]
  rcases h.insert with ⟨taken, same⟩ | ⟨free, written⟩
  · simp [same, taken]
  · simp only [Tables.hasSuccess_iff, written, List.mem_append, List.mem_singleton]
    constructor
    · rintro ⟨a, old | rfl, he, hp, status⟩
      · exact .inl ⟨a, old, he, hp, status⟩
      · exact .inr ⟨recorded.1 status, free⟩
    · rintro (⟨a, old, columns⟩ | ⟨decoded, -⟩)
      · exact ⟨a, .inl old, columns⟩
      · exact ⟨_, .inr rfl, rfl, rfl, recorded.2 decoded⟩

/-- **When a successful delivery is remembered.** A call inserts its attempt row after a response of
success. The pair has a success row from then on until its endpoint is deleted, and every later
delivery of it returns without a POST, if and only if the pair had a success row already, or the text
of the response was decoded and no row of the call's number stood in the way of the insert. -/
theorem success_remembered_iff {i : Nat} {d : Delivery} {result : HttpResult}
    (h : s.Succeeds cfg i d result s') :
    (∀ as s'', Lts.Run (State.step cfg) (Keeps d.endpoint.id) s' as s'' →
      s''.Remembers cfg d.event.id d.endpoint.id) ↔
    (s.store.db.hasSuccess d.event.id d.endpoint.id = true ∨
      (result.decoded = true ∧ ¬ s.store.db.HasRow d.event.id d.endpoint.id d.attemptNumber)) := by
  rw [← h.hasSuccess_iff]
  constructor
  · intro kept
    exact (kept [] s' (.nil s')).row
  · intro now as s'' run
    exact State.remembers_of_hasSuccess (hasSuccess_kept run now)

end

/-- A dead letter is replayed and the replayed delivery succeeds. Both deliveries have number 0. -/
def replayedSuccess : List Action :=
  sampleDeadLetter ++
    [.replayDlq (.ofNat 4), .request 0 (.publish 0 1), .request 0 .delete, .request 0 .commit] ++
    handOut 0 [sampleRecord 1 (.fanOut (.ofNat 2))] ++
    [.task 0 .resolve, .task 0 .select, .task 0 (.post (.response 200 []))]

/-- The success of the replay is not remembered. -/
theorem success_not_always_remembered :
    ¬ ∀ (cfg : Settings) (s s' s'' : State) (i : Nat) (d : Delivery) (result : HttpResult)
      (as : List Action), Reachable cfg s → s.Succeeds cfg i d result s' →
      Lts.Run (State.step cfg) (Keeps d.endpoint.id) s' as s'' →
      s''.Remembers cfg d.event.id d.endpoint.id := by
  intro claim
  obtain ⟨s, run, h⟩ := Lts.Run.of_check_any (C := fun _ _ => true) (s := initial)
    (p := fun s => (s.delivery 0).any fun d => decide (d.stage = .recording (.response 200 [])) &&
      (s.step {} (.task 0 .record)).any fun s' =>
        !s'.store.db.hasSuccess d.event.id d.endpoint.id)
    (show (Lts.check (State.step {}) _ _ replayedSuccess).any _ = true by decide +kernel)
  simp only [Option.any_eq_true, Bool.and_eq_true, decide_eq_true_eq] at h
  obtain ⟨d, delivery, stage, s', step, forgotten⟩ := h
  have kept := claim {} s s' s' 0 d _ [] ⟨_, run.any⟩ ⟨delivery, stage, rfl, step⟩ (.nil s')
  simp [kept.row] at forgotten

/-- A first delivery that succeeds is remembered. -/
theorem success_remembered_first :
    ∃ (s s' : State) (d : Delivery), s.Succeeds {} 0 d (.response 200 []) s' ∧
      ∀ as s'', Lts.Run (State.step {}) (Keeps d.endpoint.id) s' as s'' →
        s''.Remembers {} d.event.id d.endpoint.id := by
  obtain ⟨s, run, h⟩ := Lts.Run.of_check_any (C := fun _ _ => true) (s := initial)
    (p := fun s => (s.delivery 0).any fun d => decide (d.stage = .recording (.response 200 [])) &&
      (s.step {} (.task 0 .record)).isSome && s.store.db.attempts.isEmpty)
    (show (Lts.check (State.step {}) _ _ (samplePublished ++
      handOut 0 [sampleRecord 0 (.fanOut (.ofNat 2))] ++
      [.task 0 .resolve, .task 0 .select, .task 0 (.post (.response 200 []))])).any _ = true by
        decide +kernel)
  simp only [Option.any_eq_true, Bool.and_eq_true, decide_eq_true_eq, Option.isSome_iff_exists,
    List.isEmpty_iff] at h
  obtain ⟨d, delivery, ⟨stage, s', step⟩, empty⟩ := h
  have succeeds : s.Succeeds {} 0 d (.response 200 []) s' := ⟨delivery, stage, rfl, step⟩
  refine ⟨s, s', d, succeeds, (success_remembered_iff succeeds).2 (.inr ⟨rfl, ?_⟩)⟩
  rintro ⟨a, ha, -⟩
  rw [empty] at ha
  cases ha

end HookRelay
