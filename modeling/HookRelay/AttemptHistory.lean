import Mathlib.Data.Finset.Basic
import Mathlib.Order.UpperLower.Basic
import HookRelay.Evolution

/-!
# The attempt history of a pair is gapless

Attempt `n + 1` of a pair is only ever made on behalf of a message that was stored after row `n`
was written, and row `n` was no success when the delivery passed its idempotency check. Both
facts survive any interleaving, because a row goes only with its endpoint and a deleted endpoint
never comes back, so they are what the invariant `Grounded` says about every message in
circulation and every call under way.
-/

namespace HookRelay

/-- Attempt `n` to the endpoint follows a recorded attempt `n - 1`, unless the endpoint is gone. -/
structure Tables.Preceded (t : Tables) (eventId endpointId : UUID) (n : Nat) : Prop where
  issued : endpointId ∈ t.issued
  row : ∀ k, n = k + 1 → endpointId ∈ t.endpointIds → t.HasRow eventId endpointId k

/-- Attempt `n - 1` is recorded and was no success. -/
def Tables.FailedBefore (t : Tables) (eventId endpointId : UUID) (n : Nat) : Prop :=
  ∀ k, n = k + 1 → ∃ a ∈ t.attempts, a.eventId = eventId ∧ a.endpointId = endpointId ∧
    a.attemptNumber = k ∧ a.status ≠ .success

structure Message.Grounded (t : Tables) (m : Message) : Prop where
  fanOut : m.endpointId = none → m.attempt = 0
  targeted : ∀ p, m.endpointId = some p → t.Preceded m.eventId p m.attempt

structure Delivery.Grounded (t : Tables) (d : Delivery) : Prop where
  targets : ∀ p ∈ d.endpoint :: d.rest, t.Preceded d.event.id p.id d.attemptNumber
  unsucceeded : (d.stage = .posting ∨ ∃ result, d.stage = .recording result) →
    d.endpoint.id ∈ t.endpointIds → t.FailedBefore d.event.id d.endpoint.id d.attemptNumber
  recorded : ∀ result, d.stage = .failed result →
    d.endpoint.id ∈ t.endpointIds → t.HasRow d.event.id d.endpoint.id d.attemptNumber

def Call.Grounded (t : Tables) (c : Call) : Prop := ∀ d, c = .delivering d → d.Grounded t

structure Grounded (s : State) : Prop where
  messages : ∀ m, s.Carries m → m.Grounded s.store.db.toTables
  calls : ∀ t ∈ s.group.tasks, t.data.Grounded s.store.db.toTables
  rows : ∀ a ∈ s.store.db.attempts,
    s.store.db.FailedBefore a.eventId a.endpointId a.attemptNumber

/-! ## The facts persist -/

section Persist

variable {t t' : Tables} (grow : t.Evolves t')
include grow

theorem Tables.Preceded.mono {e p : UUID} {n : Nat} (h : t.Preceded e p n) : t'.Preceded e p n where
  issued := grow.issued p h.issued
  row k hk hp := grow.hasRow (h.row k hk (grow.endpoints p hp h.issued)) hp

theorem Tables.FailedBefore.mono {e p : UUID} {n : Nat} (h : t.FailedBefore e p n)
    (hp : p ∈ t'.endpointIds) : t'.FailedBefore e p n := by
  intro k hk
  obtain ⟨a, ha, he, rfl, hn⟩ := h k hk
  exact ⟨a, grow.attempts a ha hp, he, rfl, hn⟩

theorem Message.Grounded.mono {m : Message} (h : m.Grounded t) : m.Grounded t' where
  fanOut := h.fanOut
  targeted p hp := (h.targeted p hp).mono grow

theorem Delivery.Grounded.mono {d : Delivery} (h : d.Grounded t) : d.Grounded t' := by
  have old : d.endpoint.id ∈ t'.endpointIds → d.endpoint.id ∈ t.endpointIds := fun hp =>
    grow.endpoints _ hp (h.targets _ List.mem_cons_self).issued
  exact {
    targets := fun p hp => (h.targets p hp).mono grow
    unsucceeded := fun hs hp => (h.unsucceeded hs (old hp)).mono grow hp
    recorded := fun result hs hp => grow.hasRow (h.recorded result hs (old hp)) hp }

theorem Call.Grounded.mono {c : Call} (h : c.Grounded t) : c.Grounded t' :=
  fun d hd => (h d hd).mono grow

end Persist

/-! ## The steps of a call -/

section Calls

variable {t : Tables}

/-- A recorded attempt of a pair without success is a failed one. -/
theorem Tables.Preceded.failedBefore {e p : UUID} {n : Nat} (h : t.Preceded e p n)
    (prior : t.hasSuccess e p = false) (hp : p ∈ t.endpointIds) : t.FailedBefore e p n := by
  intro k hk
  obtain ⟨a, ha, he, hp, hn⟩ := h.row k hk hp
  refine ⟨a, ha, he, hp, hn, fun hs => ?_⟩
  rw [Tables.hasSuccess_iff.2 ⟨a, ha, he, hp, hs⟩] at prior
  cases prior

theorem deliverNext_grounded {event : Event} {n : Nat} {ps : List Endpoint}
    (h : ∀ p ∈ ps, t.Preceded event.id p.id n) : (deliverNext event n ps).Grounded t := by
  intro d hd
  obtain ⟨rfl, rfl, stage, rfl⟩ := deliverNext_eq hd
  exact ⟨h, by simp [stage], by simp [stage]⟩

theorem resolveTargets_grounded {m : Message} (v : t.Valid) (h : m.Grounded t) :
    (resolveTargets t m).Grounded t := by
  intro d hd
  obtain ⟨found, hn, stage, ht⟩ := resolveTargets_eq hd
  refine ⟨fun p hp => ?_, by simp [stage], by simp [stage]⟩
  rw [ht] at hp
  rw [hn, (Tables.getEvent_some found).2]
  rcases mem_targets.1 hp with ⟨endpointId, target, hf, -⟩ | ⟨untargeted, -⟩
  · exact (Tables.getEndpoint_some hf).2 ▸ h.targeted endpointId target
  · exact ⟨v.endpoints_issued p (targets_exist hp), fun k hk => by rw [h.fanOut untargeted] at hk; cases hk⟩

theorem Delivery.Grounded.next {d : Delivery} (h : d.Grounded t) : d.next.Grounded t :=
  deliverNext_grounded fun p hp => h.targets p (List.mem_cons_of_mem _ hp)

/-- Every step of a call keeps it grounded in the tables it leaves behind. -/
theorem Moves.grounded {cfg : Settings} {st st' : Store} {r : Record Message} {c c' : Call}
    {a : TaskAction} (h : Moves cfg st r c a st' c') (hm : r.value.Grounded st.db.toTables)
    (hc : c.Grounded st.db.toTables) : c'.Grounded st'.db.toTables := by
  have grow := h.evolves
  have written : ∀ {db : Tables} {d : Delivery} {result : HttpResult}, d.Grounded db →
      db.HasRow d.event.id d.endpoint.id d.attemptNumber →
      (if result.succeeded then d.next else d.goto (.failed result)).Grounded db := by
    intro db d result hd row
    split
    · exact hd.next
    · rintro _ ⟨⟩
      exact ⟨hd.targets, by simp, fun _ _ _ => row⟩
  cases h with
  | resolve => exact resolveTargets_grounded st.db.valid hm
  | skip | schedule | notify | notifyFailed => exact (hc _ rfl).next.mono grow
  | pass stage prior =>
    rintro _ ⟨⟩
    refine ⟨(hc _ rfl).targets, fun _ hp => ?_, by simp⟩
    exact ((hc _ rfl).targets _ List.mem_cons_self).failedBefore prior hp
  | post stage =>
    rintro _ ⟨⟩
    exact ⟨(hc _ rfl).targets, fun _ => (hc _ rfl).unsucceeded (.inl stage), by simp⟩
  | conflict stage taken => exact written (hc _ rfl) taken
  | @record d result db stage _ _ _ tables =>
    refine written ((hc _ rfl).mono grow) ⟨d.row result, ?_, rfl, rfl, rfl⟩
    change d.row result ∈ db.attempts
    rw [tables]
    exact List.mem_append_right _ (List.mem_singleton_self _)
  | insertDlq =>
    rintro _ ⟨⟩
    exact ⟨((hc _ rfl).mono grow).targets, by simp, by simp⟩
  | dlqConflict | cancel | cancelFailed =>
    rintro _ ⟨⟩
    exact ⟨(hc _ rfl).targets, by simp, by simp⟩

end Calls

/-! ## The invariant -/

theorem Grounded.initial : Grounded initial where
  messages m hm := by rcases hm with ⟨r, hr, -⟩ | ⟨k, hk⟩ | ⟨sch, hsch, -⟩ <;> contradiction
  calls t ht := by cases ht
  rows a ha := by cases ha

theorem Grounded.step {cfg : Settings} {s s' : State} {a : Action} (h : Grounded s)
    (inv : ConsumerGroup.Inv (fun _ => 0) s.group) (hs : Transition cfg s a s') : Grounded s' := by
  have grow := hs.evolves
  constructor
  · intro m hm
    rcases hs.message_cases hm with hm | ⟨e, -, rfl⟩ | ⟨i, t, d, result, found, hd, stage, -, rfl⟩
    · exact (h.messages m hm).mono grow
    · exact ⟨fun _ => rfl, fun p hp => by cases hp⟩
    · -- The next attempt is scheduled only after the current one was recorded.
      have hd := h.calls t (List.mem_of_getElem? found) d hd
      have issued := (hd.targets _ List.mem_cons_self).issued
      refine Message.Grounded.mono grow ⟨fun hp => by simp [Delivery.nextMessage] at hp, ?_⟩
      rintro _ ⟨⟩
      exact ⟨issued, by rintro k ⟨⟩; exact hd.recorded result stage⟩
  · intro t' ht
    rcases hs.task_cases inv ht with old | ⟨new, -⟩ | ⟨i, b, t, -, found, -, moved⟩
    · exact (h.calls t' old).mono grow
    · rintro d hd; rw [new] at hd; cases hd
    · have ht := List.mem_of_getElem? found
      exact moved.grounded (h.messages _ (.inl ⟨_, inv.tasks t ht, rfl⟩)) (h.calls t ht)
  · intro row hr
    have exist := s'.store.db.valid.attempts_endpoint_fkey row hr
    rcases hs.attempt_cases hr with old | ⟨i, t, d, result, -, found, hd, stage, rfl, endpoint, -⟩
    · exact (h.rows row old).mono grow exist
    · have hd := h.calls t (List.mem_of_getElem? found) d hd
      exact (hd.unsucceeded (.inr ⟨result, stage⟩) endpoint).mono grow exist

theorem grounded {cfg : Settings} {s : State} (h : Reachable cfg s) : Grounded s :=
  h.invariant_with (fun _ => group_inv)
    (fun _ _ _ inv h _ hs => h.step inv (step_transition hs)) .initial

/-! ## The history of a pair -/

/-- The numbers of the pair's recorded attempts. -/
def Tables.attemptNumbers (t : Tables) (eventId endpointId : UUID) : List Nat :=
  (t.attempts.filter fun a => a.eventId = eventId && a.endpointId = endpointId).map (·.attemptNumber)

/-- The pair's successful attempts. -/
def Tables.successes (t : Tables) (eventId endpointId : UUID) : List DeliveryAttempt :=
  t.attempts.filter fun a => a.eventId = eventId && a.endpointId = endpointId && a.status = .success

section Pair

variable {t : Tables} {e p : UUID}

theorem Tables.mem_attemptNumbers {n : Nat} : n ∈ t.attemptNumbers e p ↔ t.HasRow e p n := by
  simp [Tables.attemptNumbers, Tables.HasRow, and_assoc]

theorem Tables.mem_successes {a : DeliveryAttempt} : a ∈ t.successes e p ↔
    a ∈ t.attempts ∧ a.eventId = e ∧ a.endpointId = p ∧ a.status = .success := by
  simp [Tables.successes, and_assoc]

/-- Two rows of one pair with one number are the same row. -/
theorem Tables.Valid.attempt_eq (v : t.Valid) {a b : DeliveryAttempt} (ha : a ∈ t.attempts)
    (hb : b ∈ t.attempts) (he : a.eventId = b.eventId) (hp : a.endpointId = b.endpointId)
    (hn : a.attemptNumber = b.attemptNumber) : a = b :=
  eq_of_nodup_map v.uq_delivery_attempt ha hb (by simp [DeliveryAttempt.key, he, hp, hn])

theorem Tables.Valid.attempts_nodup (v : t.Valid) : t.attempts.Nodup :=
  .of_map _ v.uq_delivery_attempt

theorem Tables.Valid.attemptNumbers_nodup (v : t.Valid) : (t.attemptNumbers e p).Nodup := by
  refine (v.attempts_nodup.filter _).map_on fun a ha b hb hn => ?_
  simp only [List.mem_filter, Bool.and_eq_true, decide_eq_true_eq] at ha hb
  exact v.attempt_eq ha.1 hb.1 (ha.2.1.trans hb.2.1.symm) (ha.2.2.trans hb.2.2.symm) hn

/-- A set of numbers that is closed downwards and finite is an initial segment. -/
theorem exists_bound_of_closed {l : List Nat} (closed : ∀ n, n + 1 ∈ l → n ∈ l) :
    ∃ n, ∀ i, i ∈ l ↔ i < n := by
  have lower : IsLowerSet {i | i ∈ l} := by
    intro a b hba ha
    induction a, hba using Nat.le_induction with
    | base => exact ha
    | succ a _ ih => exact ih (closed a ha)
  rcases lower.eq_univ_or_Iio with all | ⟨n, hn⟩
  · obtain ⟨i, hi⟩ := Infinite.exists_notMem_finset l.toFinset
    exact absurd (all ▸ Set.mem_univ i : i ∈ {i | i ∈ l}) (by simpa using hi)
  · exact ⟨n, fun i => by simpa using congrArg (i ∈ ·) hn⟩

/-- **The attempt history of a pair is gapless and ends at its success.** In every reachable state
the attempts of a pair are numbered 0, 1, …, n - 1, each number once; at most one of them is a
success, and a success is the last one. -/
theorem attempts_gapless {cfg : Settings} {s : State} (h : Reachable cfg s) (e p : UUID) :
    ∃ n, (s.store.db.attemptNumbers e p).Perm (List.range n) ∧
      (s.store.db.successes e p).length ≤ 1 ∧
      ∀ a ∈ s.store.db.successes e p, a.attemptNumber + 1 = n := by
  have inv := grounded h
  have v := s.store.db.valid
  have below : ∀ {n}, s.store.db.HasRow e p (n + 1) → ∃ a ∈ s.store.db.attempts, a.eventId = e ∧
      a.endpointId = p ∧ a.attemptNumber = n ∧ a.status ≠ .success := by
    rintro n ⟨a, ha, rfl, rfl, hn⟩
    exact inv.rows a ha n hn
  obtain ⟨n, hn⟩ := exists_bound_of_closed (l := s.store.db.attemptNumbers e p) fun n h => by
    obtain ⟨a, ha, he, hp, hn, -⟩ := below (Tables.mem_attemptNumbers.1 h)
    exact Tables.mem_attemptNumbers.2 ⟨a, ha, he, hp, hn⟩
  have last : ∀ a ∈ s.store.db.successes e p, a.attemptNumber + 1 = n := by
    intro a ha
    obtain ⟨ha, he, hp, success⟩ := Tables.mem_successes.1 ha
    have here := (hn a.attemptNumber).1 (Tables.mem_attemptNumbers.2 ⟨a, ha, he, hp, rfl⟩)
    by_contra hne
    -- A row above the success would have been written after a failed attempt of the same number.
    obtain ⟨b, hb, hbe, hbp, hbn, failed⟩ :=
      below (Tables.mem_attemptNumbers.1 ((hn (a.attemptNumber + 1)).2 (by omega)))
    have same := v.attempt_eq hb ha (hbe.trans he.symm) (hbp.trans hp.symm) hbn
    exact failed (same ▸ success)
  refine ⟨n, ?_, ?_, last⟩
  · rw [List.perm_ext_iff_of_nodup v.attemptNumbers_nodup List.nodup_range]
    simpa using hn
  · have nodup : (s.store.db.successes e p).Nodup := v.attempts_nodup.filter _
    have same : ∀ a ∈ s.store.db.successes e p, ∀ b ∈ s.store.db.successes e p, a = b := by
      intro a ha b hb
      have hn : a.attemptNumber = b.attemptNumber := by have := last a ha; have := last b hb; omega
      obtain ⟨ha, hae, hap, -⟩ := Tables.mem_successes.1 ha
      obtain ⟨hb, hbe, hbp, -⟩ := Tables.mem_successes.1 hb
      exact v.attempt_eq ha hb (hae.trans hbe.symm) (hap.trans hbp.symm) hn
    match h : s.store.db.successes e p with
    | [] | [_] => simp
    | a :: b :: rest =>
      rw [h] at nodup same
      exact absurd (same a (by simp) b (by simp)) (by simp at nodup; tauto)

/-- A delivery fails, is retried by the scheduler and succeeds. -/
theorem attempts_gapless_retried :
    ∃ s : State, s.store.db.attemptNumbers (.ofNat 2) (.ofNat 1) = [0, 1] ∧
      ∃ n, (s.store.db.attemptNumbers (.ofNat 2) (.ofNat 1)).Perm (List.range n) ∧
        (s.store.db.successes (.ofNat 2) (.ofNat 1)).length ≤ 1 ∧
        ∀ a ∈ s.store.db.successes (.ofNat 2) (.ofNat 1), a.attemptNumber + 1 = n := by
  obtain ⟨s, run, h⟩ := Lts.Run.of_check_any (C := fun _ _ => true) (s := initial)
    (p := fun s : State => decide (s.store.db.attemptNumbers (.ofNat 2) (.ofNat 1) = [0, 1]))
    (show (Lts.check (State.step {}) _ _ (samplePublished ++
      handOut 0 [sampleRecord 0 (.fanOut (.ofNat 2))] ++ [.task 0 .resolve] ++ attempt 0 500 ++
      [.task 0 (.schedule 5), .finish 0 .returned, .scheduler 0 (.poll 5),
        .scheduler 0 (.publish 0 1), .scheduler 0 .cancel] ++
      handOut 0 [sampleRecord 1 (.retry (.ofNat 2) (.ofNat 1) 1)] ++ [.task 0 .resolve] ++
      attempt 0 200)).any _ = true by decide +kernel)
  exact ⟨s, of_decide_eq_true h, attempts_gapless ⟨_, run.any⟩ _ _⟩

end Pair
end HookRelay
