import HookRelay.DeliveredOnce

/-!
# When the retry budget bounds the POSTs

No message is scheduled for an attempt number outside the budget, so the POSTs of a pair stay
within it as long as no number is used twice. The idempotency check does not see to that: it looks
for a success row only, and a second copy of a message whose first copy failed makes its POST again
and schedules the next number again.
-/

namespace HookRelay

/-- The POSTs of the event to the endpoint under one attempt number. -/
def PostKind.attempt (e p : UUID) (n : Nat) : PostKind where
  eventId := e
  endpointId := p
  number := (· = n)
  status _ := true

/-- The attempt number of a POST of the event to the endpoint. -/
def Happening.postNumber (e p : UUID) : Happening → Option Nat
  | .posted _ post =>
    if post.eventId = e ∧ post.endpointId = p then some post.attemptNumber else none
  | _ => none

/-- The attempt numbers of the POSTs of the event to the endpoint, latest first. -/
def State.postNumbers (s : State) (e p : UUID) : List Nat :=
  s.store.history.filterMap (·.postNumber e p)

/-- A call on the pair passes its check although its attempt number has a row, or another copy of it
is between its check and its insert, or its row has gone with the endpoint. -/
def State.repeats (s : State) (e p : UUID) (a : Action) : Bool :=
  match a with
  | .task i .select => (s.delivery i).any (fun d => d.event.id = e && d.endpoint.id = p &&
      (s.store.db.HasRow e p d.attemptNumber ||
        s.group.tasks.any (fun t => (PostKind.attempt e p d.attemptNumber).opened t.data ||
          (PostKind.attempt e p d.attemptNumber).unrecorded t.data) ||
        (p ∉ s.store.db.endpointIds && d.attemptNumber ∈ s.postNumbers e p))) &&
      !s.store.db.hasSuccess e p
  | _ => false

/-- No process dies, no call is interrupted, and no attempt of the pair is repeated. -/
abbrev Unrepeated (e p : UUID) (s : State) (a : Action) : Prop :=
  (a.crashFree && !s.repeats e p a) = true

/-- Every message in circulation and every POST made is within the budget. -/
structure Budgeted (cfg : Settings) (s : State) : Prop where
  messages : ∀ m, s.Carries m → (m.attempt : Int) < cfg.maxRetryAttempts
  posts : ∀ r post, .posted r post ∈ s.store.history →
    (post.attemptNumber : Int) < cfg.maxRetryAttempts

section

variable {cfg : Settings} {s s' : State} {a : Action} {e p : UUID}

theorem Budgeted.step (h : Budgeted cfg s) (budget : 1 ≤ cfg.maxRetryAttempts)
    (inv : ConsumerGroup.Inv (fun _ => 0) s.group) (prov : Provenance s)
    (hs : Transition cfg s a s') : Budgeted cfg s' := by
  constructor
  · intro m hm
    rcases hs.message_cases hm with hm | ⟨e, -, rfl⟩ | ⟨i, t, d, result, -, -, -, left, rfl⟩
    · exact h.messages m hm
    · show (0 : Int) < cfg.maxRetryAttempts
      omega
    · -- The next attempt is scheduled only while the budget lasts.
      simp only [Delivery.exhausted, Bool.or_eq_false_iff, decide_eq_false_iff_not] at left
      show ((d.attemptNumber + 1 : Nat) : Int) < cfg.maxRetryAttempts
      omega
  · intro r post hx
    rcases hs.made_cases hx with old | ⟨i, d, result, -, delivery, rfl⟩
    · exact h.posts r post old
    · obtain ⟨t, found, hd⟩ := State.delivery_eq_some.1 delivery
      have ht := List.mem_of_getElem? found
      have number : d.attemptNumber = t.record.value.attempt := (prov.calls t ht d hd).attempt
      have within := h.messages t.record.value (.inl ⟨t.record, inv.tasks t ht, rfl⟩)
      rw [← number] at within
      exact within

theorem budgeted {C : State → Action → Prop} (budget : 1 ≤ cfg.maxRetryAttempts)
    (h : Lts.Reachable (State.step cfg) C initial s) : Budgeted cfg s := by
  have start : Budgeted cfg initial := by
    constructor
    · rintro m (⟨r, hr, -⟩ | ⟨k, hk⟩ | ⟨sch, hsch, -⟩) <;> contradiction
    · intro r post hx
      cases hx
  refine h.invariant_with (J := fun s => ConsumerGroup.Inv (fun _ => 0) s.group ∧ Provenance s)
    (fun _ reach => ⟨group_inv reach, provenance reach⟩) (fun _ _ _ inv h _ hs => ?_) start
  exact h.step budget inv.1 inv.2 (step_transition hs)

/-- How often a number was used. -/
theorem count_postNumbers {n : Nat} : (s.postNumbers e p).count n =
    s.store.history.countP (PostKind.attempt e p n).covers := by
  rw [State.postNumbers, List.count_filterMap]
  congr 1
  funext x
  cases x with
  | posted r post =>
    rw [Bool.eq_iff_iff, PostKind.covers_posted_iff]
    simp only [Happening.postNumber, PostKind.attempt, beq_iff_eq, Option.ite_none_right_eq_some,
      Option.some.injEq, decide_eq_true_eq, and_assoc, and_true]
  | recorded | scheduled | published => rfl

theorem hasRow_iff_covered {t : Tables} {n : Nat} : t.HasRow e p n ↔
    ∃ a ∈ t.attempts, (PostKind.attempt e p n).coversRow a = true := by
  simp [Tables.HasRow, PostKind.coversRow_iff, PostKind.attempt]

/-- Where no attempt of the pair is repeated, no number's POST is made twice. -/
theorem Unrepeated.guarded (h : Unrepeated e p s a) (n : Nat) :
    a.crashFree = true ∧ (PostKind.attempt e p n).Guarded s a := by
  simp only [Unrepeated, Bool.and_eq_true, Bool.not_eq_true'] at h
  obtain ⟨quiet, fresh⟩ := h
  refine ⟨quiet, ?_, ?_⟩
  · rintro i d rfl delivery admitted prior
    obtain ⟨he, hp, hn⟩ := PostKind.admits_iff.1 admitted
    have he : d.event.id = e := he
    have hp : d.endpoint.id = p := hp
    have hn : d.attemptNumber = n := of_decide_eq_true hn
    rw [he, hp] at prior
    simp only [State.repeats, delivery, he, hp, hn, prior, decide_true, Option.any_some,
      Bool.not_false, Bool.and_true, Bool.true_and, Bool.or_eq_false_iff, List.any_eq_false,
      Bool.or_eq_true, not_or, Bool.not_eq_true, decide_eq_false_iff_not] at fresh
    obtain ⟨⟨unknown, free⟩, room⟩ := fresh
    refine ⟨free, fun a ha => ?_, ?_⟩
    · by_contra covered
      exact unknown (hasRow_iff_covered.2 ⟨a, ha, by simpa using covered⟩)
    · by_cases exist : p ∈ s.store.db.endpointIds
      · exact .inl exist
      · right
        rw [← count_postNumbers]
        exact List.count_eq_zero.2 (by simpa [exist] using room)
  · intro i d result _ _ admitted _ _ taken
    obtain ⟨he, hp, hn⟩ := PostKind.admits_iff.1 admitted
    have hn : d.attemptNumber = n := of_decide_eq_true hn
    rw [show d.event.id = e from he, show d.endpoint.id = p from hp, hn] at taken
    exact hasRow_iff_covered.1 taken

/-- **When the retry budget bounds the POSTs.** In every crash-free run in which no call on the pair
passes its idempotency check although its attempt number has a row, or had one that has gone with
the endpoint, or while another copy of it is between its check and its insert, the POSTs of the
event to the endpoint are at most `max_retry_attempts`. -/
theorem posts_within_budget {as : List Action} (budget : 1 ≤ cfg.maxRetryAttempts)
    (run : Lts.Run (State.step cfg) (Unrepeated e p) initial as s) :
    ((s.postNumbers e p).length : Int) ≤ cfg.maxRetryAttempts := by
  have nodup : (s.postNumbers e p).Nodup := by
    rw [List.nodup_iff_count_le_one]
    intro n
    rw [count_postNumbers]
    exact PostKind.made_at_most_once (run.mono fun _ _ h => h.guarded n)
  have within : s.postNumbers e p ⊆ List.range cfg.maxRetryAttempts.toNat := by
    intro n hn
    obtain ⟨x, hx, number⟩ := List.mem_filterMap.1 hn
    cases x with
    | posted r post =>
      simp only [Happening.postNumber, Option.ite_none_right_eq_some, Option.some.injEq] at number
      have below := (budgeted budget ⟨_, run⟩).posts r post hx
      rw [List.mem_range]
      omega
    | recorded | scheduled | published => cases number
  have atMost := (nodup.subperm within).length_le
  rw [List.length_range] at atMost
  omega

end

/-- With a budget of two, the second attempt is made by both copies of its message. -/
theorem posts_exceed_budget :
    ¬ ∀ (cfg : Settings) (s : State) (as : List Action) (e p : UUID), 1 ≤ cfg.maxRetryAttempts →
      Lts.Run (State.step cfg) Quiet initial as s →
      ((s.postNumbers e p).length : Int) ≤ cfg.maxRetryAttempts := by
  intro claim
  obtain ⟨s, run, h⟩ := Lts.Run.of_check_any (C := fun _ a => a.crashFree && a.unattended)
    (s := initial) (p := fun s : State => decide (s.postNumbers (.ofNat 2) (.ofNat 1) = [1, 1, 0]))
    (show (Lts.check (State.step { maxRetryAttempts := 2 }) _ _ (publishedTwice ++
      [.task 0 .select, .task 1 .select, .task 0 (.post (.response 500 [])),
        .task 1 (.post (.response 500 []))])).any _ = true by decide +kernel)
  have bounded := claim { maxRetryAttempts := 2 } s _ (.ofNat 2) (.ofNat 1) (by decide) run
  rw [of_decide_eq_true h] at bounded
  contradiction

/-- With a budget of two, one scheduler publishes the second attempt, which is the last. -/
theorem posts_within_budget_two :
    ∃ s : State, s.store.db.HasDlq (.ofNat 2) (.ofNat 1) ∧
      s.postNumbers (.ofNat 2) (.ofNat 1) = [1, 0] ∧
      ((s.postNumbers (.ofNat 2) (.ofNat 1)).length : Int) ≤ 2 := by
  obtain ⟨s, run, h⟩ := Lts.Run.of_check_any
    (C := fun s a => a.crashFree && !s.repeats (.ofNat 2) (.ofNat 1) a) (s := initial)
    (p := fun s : State => decide (s.store.db.HasDlq (.ofNat 2) (.ofNat 1)) &&
      decide (s.postNumbers (.ofNat 2) (.ofNat 1) = [1, 0]))
    (show (Lts.check (State.step { maxRetryAttempts := 2 }) _ _ (samplePublished ++
      handOut 0 [sampleRecord 0 (.fanOut (.ofNat 2))] ++ [.task 0 .resolve] ++ attempt 0 500 ++
      [.task 0 (.schedule 5), .finish 0 .returned, .scheduler 0 (.poll 5),
        .scheduler 0 (.publish 0 1), .scheduler 0 .cancel] ++
      handOut 0 [sampleRecord 1 (.retry (.ofNat 2) (.ofNat 1) 1)] ++ [.task 0 .resolve] ++
      attempt 0 500 ++ [.task 0 (.insertDlq (.ofNat 4))])).any _ = true by decide +kernel)
  simp only [Bool.and_eq_true, decide_eq_true_eq] at h
  exact ⟨s, h.1, h.2, posts_within_budget (by decide) run⟩

end HookRelay
