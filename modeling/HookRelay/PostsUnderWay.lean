import HookRelay.Capacity
import HookRelay.SuccessKept

/-!
# How many POSTs are still under way

An operator who disables or deletes an endpoint, and a pair that has succeeded, want no more POSTs. Nothing stops the
calls that have read the endpoint, or have passed their check, already. Each of them makes at most one more POST,
and there are at most `worker_concurrency` of them to a worker.
-/

namespace HookRelay

section Calls

variable {cfg : Settings} {s s' : State} {a : Action}

/-- A step is one of a call, or makes no POST and leaves no more calls than there were. -/
theorem Transition.calls_cases (h : Transition cfg s a s') :
    (∃ (i : Nat) (b : TaskAction) (t : Task Message Call) (c : Call), a = .task i b ∧
      s.group.tasks[i]? = some t ∧ Moves cfg s.store t.record t.data b s'.store c ∧
      s'.group.tasks = s.group.tasks.set i { t with data := c }) ∨
    (∀ q : Call → Bool, q .resolving = false →
      s'.group.tasks.countP (q ·.data) ≤ s.group.tasks.countP (q ·.data)) ∧
    ∀ q : Happening → Bool, (∀ r, q (.published r) = false) →
      s'.store.history.countP q = s.store.history.countP q := by
  have published : ∀ {r : Record Message} {q : Happening → Bool}, (∀ r, q (.published r) = false) →
      (Happening.published r :: s.store.history).countP q = s.store.history.countP q :=
    fun {r q} hq => by rw [List.countP_cons, hq r]; simp
  cases h with
  | task found moved => exact .inl ⟨_, _, _, _, rfl, found, moved, rfl⟩
  | requestPublish _ _ appended | relayPublish _ appended | schedulerPublish _ _ appended
  | duplicate _ appended =>
    rw [(ConsumerGroup.append_eq_some appended).1]
    exact .inr ⟨fun _ _ => le_rfl, fun q hq => published hq⟩
  | @crash w group crashed =>
    obtain ⟨-, rfl⟩ := Option.ite_none_right_eq_some.1 crashed |>.imp_right Option.some.inj
    exact .inr ⟨fun q _ => List.filter_sublist.countP_le, fun _ _ => rfl⟩
  | loop stepped running =>
    refine .inr ⟨fun q hr => ?_, fun _ _ => rfl⟩
    rcases ConsumerGroup.loopStep_started stepped running with same | ⟨t, ht, tasks⟩
    · rw [same]
    · rw [tasks, List.countP_append]
      simp [ht, hr]
  | finish _ _ _ finished =>
    refine .inr ⟨fun q _ => ?_, fun _ _ => rfl⟩
    obtain ⟨_, _, -, tasks, -⟩ := ConsumerGroup.finish_eq_some finished
    rw [tasks]
    exact (List.eraseIdx_sublist _ _).countP_le
  | _ => exact .inr ⟨fun _ _ => le_rfl, fun _ _ => rfl⟩

/-- The account of a kind of POST over a step: what the calls make is what they were about to make. -/
theorem Transition.spends {made : Happening → Bool} {left : Call → Bool} (h : Transition cfg s a s')
    (published : ∀ r, made (.published r) = false) (resolving : left .resolving = false)
    (call : ∀ (t : Task Message Call) (b : TaskAction) (c : Call), t ∈ s.group.tasks →
      Moves cfg s.store t.record t.data b s'.store c →
      s'.store.history.countP made + (left c).toNat ≤ s.store.history.countP made + (left t.data).toNat) :
    s'.store.history.countP made + s'.group.tasks.countP (left ·.data) ≤
      s.store.history.countP made + s.group.tasks.countP (left ·.data) := by
  rcases h.calls_cases with ⟨i, b, t, c, -, found, moved, tasks⟩ | ⟨calls, posts⟩
  · have count := countP_set_add (fun t => left t.data) { t with data := c } found
    have spent := call t b c (List.mem_of_getElem? found) moved
    rw [tasks]
    simp only at count
    omega
  · have := calls left resolving
    have := posts made published
    omega

/-! ## An endpoint that is switched off -/

/-- No row of the endpoint is enabled, and none can be added. -/
structure Tables.Off (t : Tables) (p : UUID) : Prop where
  issued : p ∈ t.issued
  disabled : ∀ q ∈ t.endpoints, q.id = p → q.enabled = false

/-- The request enables the endpoint. -/
def Action.enables (p : UUID) : Action → Bool
  | .updateEndpoint id body => id = p && body.enabled = some (some true)
  | _ => false

/-- The happening is a POST to the endpoint. -/
def Happening.postsTo (p : UUID) : Happening → Bool
  | .posted _ post => post.endpointId = p
  | _ => false

/-- The call has the endpoint ahead of it, and has not made its POST to it. -/
def Call.heads (p : UUID) : Call → Bool
  | .delivering d => (d.endpoint.id = p && !d.stage.requested) || (d.rest.map (·.id)).contains p
  | _ => false

theorem Tables.Off.step {p : UUID} (h : s.store.db.Off p) (hs : Transition cfg s a s')
    (stays : a.enables p = false) : s'.store.db.Off p where
  issued := hs.evolves.issued p h.issued
  disabled q hq same := by
    rcases hs.endpoint_cases hq with old | fresh | ⟨id, body, q₀, q', rfl, found, applied, rfl⟩
    · exact h.disabled q old same
    · exact absurd (same ▸ h.issued) fresh
    · have same : id = p := same
      subst same
      have off := h.disabled q₀ (Tables.getEndpoint_some found).1 (Tables.getEndpoint_some found).2
      simp only [Action.enables, decide_true, Bool.true_and, decide_eq_false_iff_not] at stays
      simp only [EndpointUpdate.apply, Option.bind_eq_bind, Option.bind_eq_some_iff, Option.some.injEq] at applied
      obtain ⟨_, -, _, -, _, -, enabled, value, rfl⟩ := applied
      cases given : body.enabled with
      | none =>
        rw [given, Option.getD_none, Option.some.injEq] at value
        exact value ▸ off
      | some v =>
        rw [given, Option.getD_some] at value
        subst value
        cases enabled
        · rfl
        · exact absurd given stays

theorem heads_deliverNext {p : UUID} {event : Event} {n : Nat} {qs : List Endpoint} :
    (deliverNext event n qs).heads p = (qs.map (·.id)).contains p := by
  cases qs with
  | nil => rfl
  | cons q qs =>
    simp only [deliverNext, Call.heads, Stage.requested, Bool.not_false, Bool.and_true, List.map_cons,
      List.contains_cons]
    congr 1
    rw [Bool.beq_comm]
    rfl

theorem heads_rest_le {p : UUID} {d : Delivery} :
    ((d.rest.map (·.id)).contains p).toNat ≤ ((Call.delivering d).heads p).toNat := by
  rw [Call.heads]
  cases (d.rest.map (·.id)).contains p <;> simp

/-- A call makes the POST to the endpoint that it had ahead, and reads no endpoint that is switched off. -/
theorem Moves.heads_spent {st st' : Store} {r : Record Message} {c c' : Call} {b : TaskAction} {p : UUID}
    (h : Moves cfg st r c b st' c') (off : st.db.Off p) (hc : c.From r.value) :
    st'.history.countP (·.postsTo p) + (c'.heads p).toNat ≤ st.history.countP (·.postsTo p) + (c.heads p).toNat := by
  have next : ∀ {d : Delivery}, (d.next.heads p).toNat ≤ ((Call.delivering d).heads p).toNat := by
    intro d
    rw [Delivery.next, heads_deliverNext]
    exact heads_rest_le
  have goto : ∀ {d : Delivery} {stage : Stage}, stage.requested = true →
      ((d.goto stage).heads p).toNat ≤ ((Call.delivering d).heads p).toNat := by
    intro d stage requested
    have rest : (d.goto stage).heads p = (d.rest.map (·.id)).contains p := by
      simp [Delivery.goto, Call.heads, requested]
    rw [rest]
    exact heads_rest_le
  cases h with
  | resolve =>
    have none : (resolveTargets st.db.toTables r.value).heads p = false := by
      unfold resolveTargets
      split
      · rfl
      · rw [heads_deliverNext, Bool.eq_false_iff]
        intro ahead
        obtain ⟨q, hq, same⟩ := List.mem_map.1 (List.contains_iff_mem.1 ahead)
        have disabled := off.disabled q (targets_exist hq) same
        rcases mem_targets.1 hq with ⟨_, -, -, enabled⟩ | ⟨-, matching⟩
        · rw [disabled] at enabled
          cases enabled
        · rw [(Tables.mem_matching.1 matching).2.1] at disabled
          cases disabled
    rw [none]
    exact Nat.add_le_add_left (Nat.zero_le _) _
  | skip | notify | notifyFailed => exact Nat.add_le_add_left next _
  | schedule =>
    have same : ∀ k H, (Happening.scheduled k :: H).countP (·.postsTo p) = H.countP (·.postsTo p) := by
      simp [Happening.postsTo]
    rw [Store.log, same]
    exact Nat.add_le_add_left next _
  | @pass d stage =>
    have same : (d.goto .posting).heads p = (Call.delivering d).heads p := by
      simp [Delivery.goto, Call.heads, stage, Stage.requested]
    rw [same]
  | @post d result stage =>
    have after : (d.goto (.recording result)).heads p = (d.rest.map (·.id)).contains p := by
      simp [Delivery.goto, Call.heads, Stage.requested]
    rw [Store.log, List.countP_cons, after]
    by_cases here : d.endpoint.id = p
    · -- The endpoint is not a target twice.
      have apart : (d.rest.map (·.id)).contains p = false := by
        have nodup := (hc d rfl).nodup
        rw [List.map_cons, List.nodup_cons, here] at nodup
        simpa using nodup.1
      have before : (Call.delivering d).heads p = true := by simp [Call.heads, here, stage, Stage.requested]
      rw [apart, before]
      simp [Happening.postsTo, Delivery.post, here]
    · have before : (Call.delivering d).heads p = (d.rest.map (·.id)).contains p := by simp [Call.heads, here]
      rw [before]
      simp [Happening.postsTo, Delivery.post, here]
  | conflict =>
    split
    · exact Nat.add_le_add_left next _
    · exact Nat.add_le_add_left (goto rfl) _
  | record =>
    have same : ∀ r row H, (Happening.recorded r row :: H).countP (·.postsTo p) = H.countP (·.postsTo p) := by
      simp [Happening.postsTo]
    rw [Store.log, same]
    split
    · exact Nat.add_le_add_left next _
    · exact Nat.add_le_add_left (goto rfl) _
  | dlqConflict | insertDlq | cancel | cancelFailed => exact Nat.add_le_add_left (goto rfl) _

/-- **An endpoint that is switched off gets what is under way.** From a state in which the endpoint is disabled or
deleted, as long as no request enables it, the POSTs made to it are at most as many as the calls that have it ahead
of them by then, which are at most `worker_concurrency` to a worker. -/
theorem posts_after_disabling {as : List Action} {p : UUID} (reach : Reachable cfg s) (off : s.store.db.Off p)
    (run : Lts.Run (State.step cfg) (fun _ a => a.enables p = false) s as s') :
    s'.store.history.countP (·.postsTo p) ≤
        s.store.history.countP (·.postsTo p) + s.group.tasks.countP (·.data.heads p) ∧
      s.group.tasks.countP (·.data.heads p) ≤ s.group.workers.length * cfg.workerConcurrency := by
  constructor
  · refine run.budget (I := fun s => Reachable cfg s ∧ s.store.db.Off p)
      (m := fun s => s.store.history.countP (·.postsTo p)) (n := fun s => s.group.tasks.countP (·.data.heads p))
      (fun s a s' h stays hs => ?_) ⟨reach, off⟩
    obtain ⟨reach, off⟩ := h
    have hs' := step_transition hs
    refine ⟨⟨reach.next trivial hs, off.step hs' stays⟩, ?_⟩
    exact hs'.spends (fun _ => rfl) rfl fun t b c ht moved => moved.heads_spent off ((provenance reach).calls t ht)
  · exact List.countP_le_length.trans (group_capacity reach).length_le

/-- The endpoint is disabled after a call has read it, and gets the POST of that call. -/
theorem one_post_after_disabling : ∃ s s' : State,
    s'.store.history.countP (·.postsTo (.ofNat 1)) = 1 ∧ s.store.history.countP (·.postsTo (.ofNat 1)) = 0 ∧
      s'.store.history.countP (·.postsTo (.ofNat 1)) ≤ s.store.history.countP (·.postsTo (.ofNat 1)) +
        s.group.tasks.countP (·.data.heads (.ofNat 1)) ∧
      s.group.tasks.countP (·.data.heads (.ofNat 1)) ≤ s.group.workers.length * 10 := by
  obtain ⟨s, before, h⟩ := Lts.Run.of_check_any (C := fun _ _ => true) (s := initial)
    (p := fun s : State => s.store.history.countP (·.postsTo (.ofNat 1)) = 0 && .ofNat 1 ∈ s.store.db.issued &&
      (s.store.db.endpoints.all fun q => !q.enabled) &&
      (Lts.check (State.step {}) (fun _ a => !a.enables (.ofNat 1)) s
        [.task 0 .select, .task 0 (.post (.response 200 []))]).any fun s' =>
          s'.store.history.countP (·.postsTo (.ofNat 1)) = 1)
    (show (Lts.check (State.step {}) _ _ (samplePublished ++ handOut 0 [sampleRecord 0 (.fanOut (.ofNat 2))] ++
      [.task 0 .resolve, .updateEndpoint (.ofNat 1) { enabled := some (some false) }])).any _ = true by
        decide +kernel)
  simp only [Bool.and_eq_true, decide_eq_true_eq, List.all_eq_true, Bool.not_eq_true'] at h
  obtain ⟨⟨⟨none, issued⟩, disabled⟩, later⟩ := h
  obtain ⟨s', run, one⟩ := Lts.Run.of_check_any later
  have run := run.mono (D := fun _ a => a.enables (.ofNat 1) = false) fun _ _ stays => by simpa using stays
  exact ⟨s, s', of_decide_eq_true one, none,
    posts_after_disabling ⟨_, before.any⟩ ⟨issued, fun q hq _ => disabled q hq⟩ run⟩

/-! ## A pair that has succeeded -/

/-- All POSTs of the event to the endpoint. -/
def PostKind.pair (e p : UUID) : PostKind where
  eventId := e
  endpointId := p
  number _ := true
  status _ := true

/-- Where the pair has a success row, a call makes a POST only if it has passed its check already. -/
theorem Moves.opened_spent {st st' : Store} {r : Record Message} {c c' : Call} {b : TaskAction} {e p : UUID}
    (h : Moves cfg st r c b st' c') (success : st.db.hasSuccess e p = true) :
    st'.history.countP (PostKind.pair e p).covers + ((PostKind.pair e p).opened c').toNat ≤
      st.history.countP (PostKind.pair e p).covers + ((PostKind.pair e p).opened c).toNat := by
  cases PostKind.effect (k := PostKind.pair e p) h with
  | nothing opened _ posts => rw [opened, posts]
  | opens _ _ admitted prior =>
    obtain ⟨he, hp, -⟩ := PostKind.admits_iff.1 admitted
    rw [show _ = e from he, show _ = p from hp, success] at prior
    cases prior
  | makes opened _ closed posts =>
    have atMost := Bool.toNat_le ((PostKind.pair e p).unrecorded c')
    rw [opened, closed, posts, Bool.toNat_true, Bool.toNat_false]
    omega
  | records _ _ _ _ _ closed _ _ posts => rw [closed, posts]

/-- **After a success only what has passed its check is sent.** From a state in which the pair has a success row, as
long as its endpoint is not deleted, the POSTs of the event to the endpoint are at most as many as the calls that
are by then between their check and their POST. -/
theorem posts_after_success {as : List Action} {e p : UUID} (success : s.store.db.hasSuccess e p = true)
    (run : Lts.Run (State.step cfg) (Keeps p) s as s') :
    s'.store.history.countP (PostKind.pair e p).covers ≤
      s.store.history.countP (PostKind.pair e p).covers + s.group.tasks.countP ((PostKind.pair e p).opened ·.data) := by
  refine run.budget (I := fun s => s.store.db.hasSuccess e p = true)
    (m := fun s => s.store.history.countP (PostKind.pair e p).covers)
    (n := fun s => s.group.tasks.countP ((PostKind.pair e p).opened ·.data)) (fun s a s' success kept hs => ?_) success
  refine ⟨hasSuccess_kept (.single kept hs) success, ?_⟩
  exact (step_transition hs).spends (fun _ => rfl) rfl fun t b c _ moved => moved.opened_spent success

/-- Two calls pass their check before the first one succeeds. -/
theorem one_post_after_success : ∃ s s' : State,
    s'.store.history.countP (PostKind.pair (.ofNat 2) (.ofNat 1)).covers = 2 ∧
      s.store.history.countP (PostKind.pair (.ofNat 2) (.ofNat 1)).covers = 1 ∧
      s'.store.history.countP (PostKind.pair (.ofNat 2) (.ofNat 1)).covers ≤
        s.store.history.countP (PostKind.pair (.ofNat 2) (.ofNat 1)).covers +
          s.group.tasks.countP ((PostKind.pair (.ofNat 2) (.ofNat 1)).opened ·.data) := by
  obtain ⟨s, -, h⟩ := Lts.Run.of_check_any (C := fun _ _ => true) (s := initial)
    (p := fun s : State => s.store.db.hasSuccess (.ofNat 2) (.ofNat 1) &&
      s.store.history.countP (PostKind.pair (.ofNat 2) (.ofNat 1)).covers = 1 &&
      (Lts.check (State.step {}) (fun _ a => a.spares (.ofNat 1)) s [.task 1 (.post (.response 200 []))]).any fun s' =>
        s'.store.history.countP (PostKind.pair (.ofNat 2) (.ofNat 1)).covers = 2)
    (show (Lts.check (State.step {}) _ _ (samplePublished ++ [.duplicate (sampleRecord 0 (.fanOut (.ofNat 2))) 0 1] ++
      handOut 0 [sampleRecord 0 (.fanOut (.ofNat 2)), sampleRecord 1 (.fanOut (.ofNat 2))] ++
      [.task 0 .resolve, .task 1 .resolve, .task 1 .select] ++ attempt 0 200)).any _ = true by decide +kernel)
  simp only [Bool.and_eq_true, decide_eq_true_eq] at h
  obtain ⟨⟨success, one⟩, later⟩ := h
  obtain ⟨s', run, two⟩ := Lts.Run.of_check_any later
  have run := run.mono (D := Keeps (.ofNat 1)) fun s a spares => by
    rintro rfl
    simp [Action.spares] at spares
  exact ⟨s, s', of_decide_eq_true two, one, posts_after_success success run⟩

end Calls
end HookRelay
