import HookRelay.AttemptHistory
import HookRelay.RetryBudget
import HookRelay.RetryChain

/-!
# What the rows say happened

The two tables that operators read are written after the fact, by calls that race and die. A row of
`delivery_attempts` is the outcome of a POST that was made under its number, the rows of a pair stand in the table
in the order of their numbers, and a dead letter gives the reason of a POST after which there was nothing left to
try.
-/

namespace HookRelay

/-- The row that the POST is recorded with. -/
def Post.row (p : Post) : DeliveryAttempt where
  eventId := p.eventId
  endpointId := p.endpointId
  attemptNumber := p.attemptNumber
  status := p.result.attemptStatus
  httpStatus := p.result.httpStatus
  responseBody := p.result.responseBody

theorem Happening.post_eq_some {x : Happening} {p : Post} : x.post = some p ↔ ∃ r, x = .posted r p := by
  cases x <;> simp [Happening.post]

/-- A call on its failure path was not answered with success. -/
def Call.Unsuccessful (c : Call) : Prop :=
  ∀ d result, c = .delivering d → d.stage = .failed result → result.succeeded = false

/-- The POST failed for good, or was the last one the settings allow. -/
def Post.Final (cfg : Settings) (p : Post) : Prop :=
  p.result.succeeded = false ∧
    (p.result.isPermanent = true ∨ cfg.maxRetryAttempts ≤ (p.attemptNumber + 1 : Nat))

/-- A dead letter gives the reason of a final POST of its pair, which is recorded. -/
def DLQEntry.Justified (cfg : Settings) (st : Store) (x : DLQEntry) : Prop :=
  ∃ r post, .posted r post ∈ st.history ∧ post.eventId = x.eventId ∧ post.endpointId = x.endpointId ∧
    x.reason = Delivery.reason cfg post.result ∧ post.Final cfg ∧
    st.db.HasRow x.eventId x.endpointId post.attemptNumber

section Step

variable {cfg : Settings} {s s' : State} {a : Action}

/-! ## The calls that write -/

theorem deliverNext_unsuccessful {event : Event} {n : Nat} {ps : List Endpoint} :
    (deliverNext event n ps).Unsuccessful := by
  intro d result h stage
  rw [(deliverNext_eq h).2.2.1] at stage
  cases stage

/-- The failure path is entered only by the insert of a failed attempt's row. -/
theorem Moves.unsuccessful {st st' : Store} {r : Record Message} {c c' : Call} {b : TaskAction}
    (h : Moves cfg st r c b st' c') : c'.Unsuccessful := by
  cases h with
  | resolve =>
    intro d result h stage
    rw [(resolveTargets_eq h).2.2.1] at stage
    cases stage
  | skip | schedule | notify | notifyFailed => exact deliverNext_unsuccessful
  | pass | post | dlqConflict | insertDlq | cancel | cancelFailed => rintro d result ⟨⟩ ⟨⟩
  | conflict | record =>
    split
    · exact deliverNext_unsuccessful
    · rename_i failed
      rintro d result ⟨⟩ ⟨⟩
      simpa using failed

theorem unsuccessful (reach : Reachable cfg s) : ∀ t ∈ s.group.tasks, t.data.Unsuccessful := by
  refine Lts.Reachable.invariant_with (I := fun s => ∀ t ∈ s.group.tasks, t.data.Unsuccessful)
    (fun _ => group_inv) (fun s a s' inv h _ hs t' ht => ?_) reach (fun t ht => by cases ht)
  rcases (step_transition hs).task_cases inv ht with old | ⟨new, -⟩ | ⟨i, b, t, -, -, -, moved⟩
  · exact h t' old
  · intro d result hd
    rw [new] at hd
    cases hd
  · exact moved.unsuccessful

/-- A delivery behind its POST that still holds the result has the POST in the history. -/
theorem posted_of_result (reach : Reachable cfg s) {t : Task Message Call} (ht : t ∈ s.group.tasks) {d : Delivery}
    {result : HttpResult} (hd : t.data = .delivering d) (held : d.stage.result = some result) :
    .posted t.record (d.post result) ∈ s.store.history := by
  have requested : d.stage.requested = true := by
    revert held
    cases d.stage <;> simp [Stage.result, Stage.requested]
  obtain ⟨_, posted, same⟩ := (provenance reach).posted t ht d hd requested
  cases same result held
  exact posted

/-- A dead letter is an old one, or the call of the step has just written it, with the reason of its POST. -/
theorem Transition.written_cases (h : Transition cfg s a s') {x : DLQEntry} (hx : x ∈ s'.store.db.dlq) :
    x ∈ s.store.db.dlq ∨ ∃ t ∈ s.group.tasks, ∃ d result, t.data = .delivering d ∧ d.stage = .failed result ∧
      d.exhausted cfg result = true ∧ x.eventId = d.event.id ∧ x.endpointId = d.endpoint.id ∧
      x.reason = Delivery.reason cfg result ∧ d.endpoint.id ∈ s.store.db.endpointIds := by
  cases h with
  | createEndpoint _ tables | ingest _ _ tables =>
    change x ∈ Tables.dlq _ at hx
    rw [State.setDb, tables] at hx
    exact .inl hx
  | deleteEndpoint | deleteDlq | requestCommit => exact .inl (List.mem_filter.1 hx).1
  | @task i _ t _ _ found moved =>
    obtain ⟨worker, record, c⟩ := t
    cases moved with
    | record _ _ _ _ tables =>
      change x ∈ Tables.dlq _ at hx
      rw [Store.log, tables] at hx
      exact .inl hx
    | @insertDlq d result id db stage exhausted _ _ endpoint _ tables =>
      rw [tables] at hx
      rcases List.mem_append.1 hx with hx | hx
      · exact .inl hx
      · rw [List.mem_singleton] at hx
        subst hx
        exact .inr ⟨_, List.mem_of_getElem? found, d, result, rfl, stage, exhausted, rfl, rfl, rfl, endpoint⟩
    | _ => exact .inl hx
  | _ => exact .inl hx

/-! ## Attempt rows -/

/-- Every attempt row is the outcome of a POST. -/
theorem rows_posted (reach : Reachable cfg s) :
    ∀ row ∈ s.store.db.attempts, ∃ r post, .posted r post ∈ s.store.history ∧ row = post.row := by
  refine reach.invariant_with
    (I := fun s => ∀ row ∈ s.store.db.attempts, ∃ r post, .posted r post ∈ s.store.history ∧ row = post.row)
    (fun _ reach => reach) (fun s a s' reach h _ hs row hr => ?_) (fun row hr => by cases hr)
  have hs := step_transition hs
  rcases hs.attempt_cases hr with old | ⟨i, t, d, result, -, found, hd, stage, rfl, -⟩
  · obtain ⟨r, post, posted, same⟩ := h row old
    exact ⟨r, post, hs.history_mono posted, same⟩
  · have posted : .posted t.record (d.post result) ∈ s.store.history :=
      posted_of_result reach (List.mem_of_getElem? found) hd (by simp [stage, Stage.result])
    exact ⟨_, _, hs.history_mono posted, rfl⟩

/-- The attempts after a step: the old ones, the old ones less those of an endpoint, or the old ones and a row whose
key was free. -/
theorem Transition.attempts_cases (h : Transition cfg s a s') :
    s'.store.db.attempts = s.store.db.attempts ∨
      (∃ p, s'.store.db.attempts = s.store.db.attempts.filter (·.endpointId ≠ p)) ∨
      ∃ row, ¬ s.store.db.HasRow row.eventId row.endpointId row.attemptNumber ∧
        s'.store.db.attempts = s.store.db.attempts ++ [row] := by
  cases h with
  | createEndpoint _ tables | ingest _ _ tables =>
    left
    rw [State.setDb, tables]
  | @deleteEndpoint p => exact .inr (.inl ⟨p, rfl⟩)
  | @task i _ t _ _ found moved =>
    obtain ⟨worker, record, c⟩ := t
    cases moved with
    | @record d result db _ free _ _ tables =>
      refine .inr (.inr ⟨d.row result, free, ?_⟩)
      rw [Store.log, tables]
    | insertDlq _ _ _ _ _ _ tables =>
      left
      rw [tables]
    | _ => exact .inl rfl
  | _ => exact .inl rfl

theorem Tables.attemptNumbers_eq {t t' : Tables} {e p : UUID} (h : t'.attempts = t.attempts) :
    t'.attemptNumbers e p = t.attemptNumbers e p := by
  rw [attemptNumbers, attemptNumbers, h]

/-- The rows of a pair stand in the order of their numbers. -/
theorem rows_ordered (reach : Reachable cfg s) (e p : UUID) :
    ∃ n, s.store.db.attemptNumbers e p = List.range n := by
  refine reach.invariant_with (J := fun s => Reachable cfg s)
    (I := fun s => ∃ n, s.store.db.attemptNumbers e p = List.range n) (fun _ reach => reach)
    (fun s a s' reach h _ hs => ?_) ⟨0, rfl⟩
  obtain ⟨n, numbers⟩ := h
  have used : ∀ k, s.store.db.HasRow e p k ↔ k < n := fun k => by
    rw [← Tables.mem_attemptNumbers, numbers, List.mem_range]
  rcases (step_transition hs).attempts_cases with same | ⟨q, rest⟩ | ⟨row, free, grown⟩
  · exact ⟨n, by rw [Tables.attemptNumbers_eq same, numbers]⟩
  · by_cases here : p = q
    · subst here
      refine ⟨0, ?_⟩
      rw [Tables.attemptNumbers, rest, List.filter_filter, List.filter_eq_nil_iff.2 fun a _ => by simp +contextual]
      rfl
    · refine ⟨n, numbers ▸ ?_⟩
      rw [Tables.attemptNumbers, Tables.attemptNumbers, rest, List.filter_filter]
      congr 1
      refine List.filter_congr fun a _ => ?_
      by_cases hp : a.endpointId = p <;> simp [hp, here]
  · by_cases pair : row.eventId = e ∧ row.endpointId = p
    · obtain ⟨rfl, rfl⟩ := pair
      -- The number is not used, and the one before it is.
      have above : n ≤ row.attemptNumber := by
        by_contra below
        exact free ((used _).2 (by omega))
      have below : row.attemptNumber ≤ n := by
        cases number : row.attemptNumber with
        | zero => omega
        | succ k =>
          obtain ⟨a, ha, he, hp, hn, -⟩ := (grounded (reach.next trivial hs)).rows row
            (grown ▸ List.mem_append_right _ (List.mem_singleton_self _)) k number
          rw [grown, List.mem_append, List.mem_singleton] at ha
          have old : a ∈ s.store.db.attempts := ha.resolve_right fun same => by
            rw [same] at hn
            omega
          have := (used k).1 ⟨a, old, he, hp, hn⟩
          omega
      refine ⟨n + 1, ?_⟩
      have last : row.attemptNumber = n := by omega
      rw [Tables.attemptNumbers, grown, List.filter_append, List.map_append, List.range_succ, ← numbers,
        Tables.attemptNumbers]
      simp [last]
    · refine ⟨n, numbers ▸ ?_⟩
      have other : (decide (row.eventId = e) && decide (row.endpointId = p)) = false := by
        simpa using pair
      rw [Tables.attemptNumbers, Tables.attemptNumbers, grown, List.filter_append]
      simp [other]

theorem exists_map_of_forall {α β : Type*} {f : β → α} {P : β → Prop} {l : List α}
    (h : ∀ x ∈ l, ∃ y, P y ∧ x = f y) : ∃ l' : List β, l = l'.map f ∧ ∀ y ∈ l', P y := by
  induction l with
  | nil => exact ⟨[], rfl, by simp⟩
  | cons x l ih =>
    obtain ⟨y, hy, rfl⟩ := h x List.mem_cons_self
    obtain ⟨l', rfl, hl⟩ := ih fun z hz => h z (List.mem_cons_of_mem _ hz)
    exact ⟨y :: l', rfl, List.forall_mem_cons.2 ⟨hy, hl⟩⟩

/-- **The attempts of a pair tell its deliveries in order.** In every reachable state the rows of a pair stand in
the table in the order of their numbers 0, 1, …, n - 1, and each of them is the outcome of a POST that was made to
the endpoint for the event under the row's number. -/
theorem attempts_tell_deliveries (reach : Reachable cfg s) (e p : UUID) :
    ∃ posts : List Post,
      (s.store.db.attempts.filter fun a => a.eventId = e && a.endpointId = p) = posts.map Post.row ∧
      posts.map (·.attemptNumber) = List.range posts.length ∧
      ∀ post ∈ posts, ∃ r, .posted r post ∈ s.store.history := by
  obtain ⟨posts, rows, posted⟩ := exists_map_of_forall (f := Post.row)
    (P := fun post => ∃ r, .posted r post ∈ s.store.history)
    (l := s.store.db.attempts.filter fun a => a.eventId = e && a.endpointId = p) fun row hr => by
      obtain ⟨r, post, posted, same⟩ := rows_posted reach row (List.mem_filter.1 hr).1
      exact ⟨post, ⟨r, posted⟩, same⟩
  refine ⟨posts, rows, ?_, posted⟩
  obtain ⟨n, numbers⟩ := rows_ordered reach e p
  have same : posts.map (·.attemptNumber) = s.store.db.attemptNumbers e p := by
    rw [Tables.attemptNumbers, rows, List.map_map]
    rfl
  have length : posts.length = n := by
    rw [← List.length_map, same, numbers, List.length_range]
  rw [same, numbers, length]

/-- A delivery fails and is retried with success. -/
theorem attempts_tell_two_deliveries : ∃ s : State, s.store.db.attempts.length = 2 ∧
    ∃ posts : List Post,
      (s.store.db.attempts.filter fun a => a.eventId = .ofNat 2 && a.endpointId = .ofNat 1) = posts.map Post.row ∧
      posts.map (·.attemptNumber) = List.range posts.length ∧
      ∀ post ∈ posts, ∃ r, .posted r post ∈ s.store.history := by
  obtain ⟨s, run, h⟩ := Lts.Run.of_check_any (C := fun _ _ => true) (s := initial)
    (p := fun s : State => decide (s.store.db.attempts.length = 2))
    (show (Lts.check (State.step {}) _ _ (samplePublished ++
      handOut 0 [sampleRecord 0 (.fanOut (.ofNat 2))] ++ [.task 0 .resolve] ++ attempt 0 500 ++
      [.task 0 (.schedule 5), .finish 0 .returned, .scheduler 0 (.poll 5), .scheduler 0 (.publish 0 1)] ++
      handOut 0 [sampleRecord 1 (.retry (.ofNat 2) (.ofNat 1) 1)] ++ [.task 0 .resolve] ++
      attempt 0 200)).any _ = true by decide +kernel)
  exact ⟨s, of_decide_eq_true h, attempts_tell_deliveries ⟨_, run.any⟩ _ _⟩

/-! ## Numbers without a row -/

/-- A row stands under the number, or the POSTs under it are those of calls that have come to their insert. -/
def Recorded (e p : UUID) (n : Nat) (s : State) : Prop :=
  s.store.history.countP (PostKind.attempt e p n).covers ≤
      s.group.tasks.countP ((PostKind.attempt e p n).unrecorded ·.data) ∨
    (PostKind.attempt e p n).Known s.store.db.toTables

theorem Moves.select_stage {st st' : Store} {r : Record Message} {d : Delivery} {c : Call}
    (h : Moves cfg st r (.delivering d) .select st' c) : d.stage = .checking := by
  cases h with
  | skip stage | pass stage => exact stage

theorem Recorded.step {e p : UUID} {n : Nat} (h : Recorded e p n s) (hs : Transition cfg s a s')
    (quiet : a.crashFree = true) : Recorded e p n s' := by
  unfold Recorded at h ⊢
  have known := fun h : (PostKind.attempt e p n).Known s.store.db.toTables => h.mono hs.evolves
  rcases hs.quiet_cases quiet with ⟨i, b, t, c, rfl, found, moved, tasks⟩ | ⟨calls, posts⟩
  · have unrecorded : s'.group.tasks.countP ((PostKind.attempt e p n).unrecorded ·.data) +
        ((PostKind.attempt e p n).unrecorded t.data).toNat =
        s.group.tasks.countP ((PostKind.attempt e p n).unrecorded ·.data) +
        ((PostKind.attempt e p n).unrecorded c).toNat :=
      tasks ▸ countP_set_add (fun t => (PostKind.attempt e p n).unrecorded t.data) { t with data := c } found
    cases PostKind.effect (k := PostKind.attempt e p n) moved with
    | nothing _ hu hn =>
      rw [hu] at unrecorded
      exact h.imp (fun _ => by omega) known
    | opens call select _ _ _ hu hn =>
      have before : (PostKind.attempt e p n).unrecorded t.data = false := by
        rw [call, select] at moved
        rw [call]
        exact PostKind.unrecorded_of_stage (by simp [moved.select_stage])
      rw [hu, before] at unrecorded
      exact h.imp (fun _ => by omega) known
    | makes _ hu _ hn =>
      rw [hu, Bool.toNat_false] at unrecorded
      exact h.imp (fun _ => by omega) known
    | @records d result call _ admitted stage _ _ _ row _ =>
      right
      rcases row with ⟨a, ha, covers⟩ | ⟨same, taken⟩
      · exact .of_row s'.store.db.valid ha covers
      · obtain ⟨he, hp, hn⟩ := PostKind.admits_iff.1 admitted
        have hn : d.attemptNumber = n := of_decide_eq_true hn
        rw [he, hp, hn] at taken
        obtain ⟨a, ha, covers⟩ := hasRow_iff_covered.1 taken
        exact same ▸ .of_row s.store.db.valid ha covers
  · have unrecorded := calls (PostKind.attempt e p n).unrecorded rfl rfl
    have same := posts (PostKind.attempt e p n).covers fun _ => rfl
    exact h.imp (fun _ => by omega) known

/-- **While nothing crashes, the number of every POST is recorded.** In a run in which no process dies and no call is
interrupted, a row of the pair stands under the number of a POST to an endpoint that still exists, or a call of that
number has come to its insert. The row may be the one of another POST under the number, which came first. -/
theorem posts_recorded {as : List Action}
    (run : Lts.Run (State.step cfg) (fun _ a => a.crashFree = true) initial as s) {r : Record Message} {post : Post}
    (made : .posted r post ∈ s.store.history) (exist : post.endpointId ∈ s.store.db.endpointIds) :
    s.store.db.HasRow post.eventId post.endpointId post.attemptNumber ∨
      ∃ i d result, s.delivery i = some d ∧ d.stage = .recording result ∧ d.event.id = post.eventId ∧
        d.endpoint.id = post.endpointId ∧ d.attemptNumber = post.attemptNumber := by
  have recorded : Recorded post.eventId post.endpointId post.attemptNumber s :=
    run.invariant (fun _ _ _ h quiet hs => h.step (step_transition hs) quiet) (.inl (Nat.zero_le _))
  rcases recorded with few | known
  · right
    have pos : 0 < s.store.history.countP (PostKind.attempt post.eventId post.endpointId post.attemptNumber).covers :=
      List.countP_pos_iff.2 ⟨_, made, PostKind.covers_posted_iff.2 ⟨rfl, rfl, decide_eq_true rfl, rfl⟩⟩
    obtain ⟨t, ht, unrecorded⟩ := List.countP_pos_iff.1 (pos.trans_le few)
    obtain ⟨i, found⟩ := List.mem_iff_getElem?.1 ht
    unfold PostKind.unrecorded at unrecorded
    split at unrecorded
    · rename_i d hd
      rw [Bool.and_eq_true] at unrecorded
      obtain ⟨admitted, stage⟩ := unrecorded
      obtain ⟨he, hp, hn⟩ := PostKind.admits_iff.1 admitted
      split at stage
      · rename_i result recording
        exact ⟨i, d, result, State.delivery_eq_some.2 ⟨t, found, hd⟩, recording, he, hp, of_decide_eq_true hn⟩
      · cases stage
    · cases unrecorded
  · exact .inl (hasRow_iff_covered.2 (known.row exist))

/-- A call has made its POST and not inserted the row. -/
theorem post_about_to_be_recorded : ∃ (s : State) (r : Record Message) (post : Post),
    .posted r post ∈ s.store.history ∧ s.store.db.attempts.length = 0 ∧
      (s.store.db.HasRow post.eventId post.endpointId post.attemptNumber ∨
        ∃ i d result, s.delivery i = some d ∧ d.stage = .recording result ∧ d.event.id = post.eventId ∧
          d.endpoint.id = post.endpointId ∧ d.attemptNumber = post.attemptNumber) := by
  obtain ⟨s, run, h⟩ := Lts.Run.of_check_any (C := fun _ a => a.crashFree) (s := initial)
    (p := fun s : State => s.store.db.attempts.length = 0 &&
      s.store.history.any fun x => x.post.any fun post => post.endpointId ∈ s.store.db.endpointIds)
    (show (Lts.check (State.step {}) _ _ (samplePublished ++
      handOut 0 [sampleRecord 0 (.fanOut (.ofNat 2))] ++
      [.task 0 .resolve, .task 0 .select, .task 0 (.post (.response 200 []))])).any _ = true by decide +kernel)
  simp only [Bool.and_eq_true, List.any_eq_true, Option.any_eq_true, decide_eq_true_eq] at h
  obtain ⟨none, x, made, post, hx, exist⟩ := h
  obtain ⟨r, rfl⟩ := Happening.post_eq_some.1 hx
  exact ⟨s, r, post, made, none, posts_recorded run made exist⟩

/-! ## Dead letters -/

theorem DLQEntry.Justified.mono {x : DLQEntry} (h : x.Justified cfg s.store) (hs : Transition cfg s a s')
    (exist : x.endpointId ∈ s'.store.db.endpointIds) : x.Justified cfg s'.store := by
  obtain ⟨r, post, posted, he, hp, reason, final, row⟩ := h
  exact ⟨r, post, hs.history_mono posted, he, hp, reason, final, hs.evolves.hasRow row exist⟩

theorem justified (reach : Reachable cfg s) : ∀ x ∈ s.store.db.dlq, x.Justified cfg s.store := by
  refine reach.invariant_with (J := fun s => Reachable cfg s)
    (I := fun s => ∀ x ∈ s.store.db.dlq, x.Justified cfg s.store) (fun _ reach => reach)
    (fun s a s' reach h _ hs x hx => ?_) (fun x hx => by cases hx)
  have hs' := step_transition hs
  have exist := s'.store.db.valid.dlq_endpoint_fkey x hx
  rcases hs'.written_cases hx with old | ⟨t, ht, d, result, hd, stage, exhausted, he, hp, reason, endpoint⟩
  · exact (h x old).mono hs' exist
  · have posted : .posted t.record (d.post result) ∈ s.store.history :=
      posted_of_result reach ht hd (by simp [stage, Stage.result])
    have failed := unsuccessful reach t ht d result hd stage
    have row := ((grounded reach).calls t ht d hd).recorded result stage endpoint
    rw [Delivery.exhausted, Bool.or_eq_true, decide_eq_true_eq] at exhausted
    refine ⟨t.record, d.post result, hs'.history_mono posted, he.symm, hp.symm, reason, ⟨failed, exhausted⟩, ?_⟩
    rw [he, hp]
    exact hs'.evolves.hasRow row (hp ▸ exist)

/-- **Dead letters are justified.** In every reachable state the reason of a dead letter is the one of a POST of
its pair that failed and was permanent or the last one allowed, and every attempt of the pair up to that POST is
recorded, none before it as a success. -/
theorem dead_letters_justified (reach : Reachable cfg s) : ∀ x ∈ s.store.db.dlq,
    ∃ r post, .posted r post ∈ s.store.history ∧ post.eventId = x.eventId ∧ post.endpointId = x.endpointId ∧
      x.reason = Delivery.reason cfg post.result ∧ post.Final cfg ∧
      ∀ n ≤ post.attemptNumber, ∃ row ∈ s.store.db.attempts, row.eventId = x.eventId ∧
        row.endpointId = x.endpointId ∧ row.attemptNumber = n ∧ (n < post.attemptNumber → row.status ≠ .success) := by
  intro x hx
  obtain ⟨r, post, posted, he, hp, reason, final, last⟩ := justified reach x hx
  refine ⟨r, post, posted, he, hp, reason, final, fun n le => ?_⟩
  -- Downwards from the row of the POST: every row follows a failed one.
  induction le using Nat.decreasingInduction with
  | self => 
    obtain ⟨row, hr, he, hp, hn⟩ := last
    exact ⟨row, hr, he, hp, hn, fun below => absurd below (lt_irrefl _)⟩
  | of_succ n le ih =>
    obtain ⟨row, hr, he, hp, hn, -⟩ := ih
    obtain ⟨before, hb, hbe, hbp, hbn, failed⟩ := (grounded reach).rows row hr n hn
    exact ⟨before, hb, hbe.trans he, hbp.trans hp, hbn, fun _ => failed⟩

/-- A delivery is answered with 404. -/
theorem dead_letter_of_404 : ∃ s : State, ∃ x ∈ s.store.db.dlq, x.reason = "Permanent error: HTTP 404" ∧
    ∃ r post, .posted r post ∈ s.store.history ∧ post.eventId = x.eventId ∧ post.endpointId = x.endpointId ∧
      x.reason = Delivery.reason {} post.result ∧ post.Final {} ∧
      ∀ n ≤ post.attemptNumber, ∃ row ∈ s.store.db.attempts, row.eventId = x.eventId ∧
        row.endpointId = x.endpointId ∧ row.attemptNumber = n ∧ (n < post.attemptNumber → row.status ≠ .success) := by
  obtain ⟨s, run, h⟩ := Lts.Run.of_check_any (C := fun _ _ => true) (s := initial)
    (p := fun s : State => s.store.db.dlq.any fun x => x.reason = "Permanent error: HTTP 404")
    (show (Lts.check (State.step {}) _ _ sampleDeadLetter).any _ = true by decide +kernel)
  rw [List.any_eq_true] at h
  obtain ⟨x, hx, reason⟩ := h
  exact ⟨s, x, hx, of_decide_eq_true reason, dead_letters_justified ⟨_, run.any⟩ x hx⟩

end Step
end HookRelay
