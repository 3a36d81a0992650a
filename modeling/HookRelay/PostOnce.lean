import HookRelay.NoLoss

/-!
# POSTs that are made at most once

The idempotency `SELECT`, the POST and the insert of the attempt row are three steps of a call, and
nothing but a row stops a second call for the same delivery. So a kind of POST is made at most once
as long as no call passes its check while another one is between its check and its insert, or while
a row of the kind is there already, or was there until its endpoint was deleted.
-/

namespace HookRelay

/-- No process dies and no call is interrupted. -/
def Action.crashFree : Action → Bool
  | .loop (.crash _) => false
  | .finish _ o => o = .returned
  | _ => true

/-- No process dies, no call is interrupted, and no operator intervenes. -/
abbrev Quiet (_ : State) (a : Action) : Prop := (a.crashFree && a.unattended) = true

/-- A kind of POST of an event to an endpoint: the attempt numbers and the outcomes it covers. -/
structure PostKind where
  eventId : UUID
  endpointId : UUID
  number : Nat → Bool
  status : AttemptStatus → Bool

namespace PostKind

variable (k : PostKind)

/-- A POST of the delivery may be of the kind. -/
def admits (d : Delivery) : Bool :=
  d.event.id = k.eventId && d.endpoint.id = k.endpointId && k.number d.attemptNumber

def covers : Happening → Bool
  | .posted _ post => post.eventId = k.eventId && post.endpointId = k.endpointId &&
      k.number post.attemptNumber && k.status post.result.attemptStatus
  | _ => false

def coversRow (a : DeliveryAttempt) : Bool :=
  a.eventId = k.eventId && a.endpointId = k.endpointId && k.number a.attemptNumber &&
    k.status a.status

/-- The call has passed its check and makes a POST that may be of the kind. -/
def opened : Call → Bool
  | .delivering d => k.admits d && d.stage = .posting
  | _ => false

/-- The call has made a POST of the kind and not come to the insert of its row. -/
def unrecorded : Call → Bool
  | .delivering d => k.admits d && match d.stage with
    | .recording result => k.status result.attemptStatus
    | _ => false
  | _ => false

theorem admits_iff {k : PostKind} {d : Delivery} : k.admits d = true ↔
    d.event.id = k.eventId ∧ d.endpoint.id = k.endpointId ∧ k.number d.attemptNumber = true := by
  simp [admits, and_assoc]

theorem covers_posted_iff {k : PostKind} {r : Record Message} {post : Post} :
    k.covers (.posted r post) = true ↔ post.eventId = k.eventId ∧ post.endpointId = k.endpointId ∧
      k.number post.attemptNumber = true ∧ k.status post.result.attemptStatus = true := by
  simp [covers, and_assoc]

theorem coversRow_iff {k : PostKind} {a : DeliveryAttempt} : k.coversRow a = true ↔
    a.eventId = k.eventId ∧ a.endpointId = k.endpointId ∧ k.number a.attemptNumber = true ∧
      k.status a.status = true := by
  simp [coversRow, and_assoc]

/-- A POST of the kind has left a row, unless the endpoint is gone. -/
structure Known (t : Tables) : Prop where
  issued : k.endpointId ∈ t.issued
  row : k.endpointId ∈ t.endpointIds → ∃ a ∈ t.attempts, k.coversRow a = true

/-- The step does not bring about a second POST of the kind: a call passes its check only when no
other call is between its check and its insert and no row tells of such a POST, or has gone with
the endpoint, and the insert for one does not meet a row of another kind. -/
structure Guarded (s : State) (a : Action) : Prop where
  select : ∀ i d, a = .task i .select → s.delivery i = some d → k.admits d = true →
    s.store.db.hasSuccess d.event.id d.endpoint.id = false →
    (∀ t ∈ s.group.tasks, k.opened t.data = false ∧ k.unrecorded t.data = false) ∧
      (∀ a ∈ s.store.db.attempts, k.coversRow a = false) ∧
      (k.endpointId ∈ s.store.db.endpointIds ∨ s.store.history.countP k.covers = 0)
  record : ∀ i d result, a = .task i .record → s.delivery i = some d → k.admits d = true →
    d.stage = .recording result → k.status result.attemptStatus = true →
    s.store.db.HasRow d.event.id d.endpoint.id d.attemptNumber →
    ∃ a ∈ s.store.db.attempts, k.coversRow a = true

/-- The POSTs made and the calls on the way to or from one. -/
structure Once (s : State) : Prop where
  posted : s.store.history.countP k.covers + s.group.tasks.countP (k.opened ·.data) ≤ 1
  exclusive : s.group.tasks.countP (k.opened ·.data) + s.group.tasks.countP (k.unrecorded ·.data) ≤ 1
  known : s.store.history.countP k.covers ≤ s.group.tasks.countP (k.unrecorded ·.data) ∨
    k.Known s.store.db.toTables

end PostKind

/-! ## Counting -/

theorem countP_set_add {α : Type*} {l : List α} {i : Nat} {x : α} (q : α → Bool) (y : α)
    (h : l[i]? = some x) : (l.set i y).countP q + (q x).toNat = l.countP q + (q y).toNat := by
  obtain ⟨hi, rfl⟩ := List.getElem?_eq_some_iff.1 h
  have pos := List.boole_getElem_le_countP (p := q) hi
  rw [List.countP_set hi]
  cases hx : q l[i] <;> cases hy : q y <;> simp only [hx, if_true, if_false, Bool.toNat_true,
    Bool.toNat_false, Bool.false_eq_true] at pos ⊢ <;> omega

theorem countP_eraseIdx {α : Type*} {l : List α} {i : Nat} {x : α} {q : α → Bool}
    (h : l[i]? = some x) (hx : q x = false) : (l.eraseIdx i).countP q = l.countP q := by
  obtain ⟨hi, rfl⟩ := List.getElem?_eq_some_iff.1 h
  rw [← (List.getElem_cons_eraseIdx_perm hi).countP_eq q, List.countP_cons, hx]
  simp

section Step

variable {cfg : Settings} {s s' : State} {a : Action}

/-- A crash-free step is one of a call, or leaves the calls under way and the POSTs made as they
are: it may start a call and end one that is finished. -/
theorem Transition.quiet_cases (h : Transition cfg s a s') (quiet : a.crashFree = true) :
    (∃ (i : Nat) (b : TaskAction) (t : Task Message Call) (c : Call), a = .task i b ∧
      s.group.tasks[i]? = some t ∧ Moves cfg s.store t.record t.data b s'.store c ∧
      s'.group.tasks = s.group.tasks.set i { t with data := c }) ∨
    (∀ q : Call → Bool, q .resolving = false → q .finished = false →
      s'.group.tasks.countP (q ·.data) = s.group.tasks.countP (q ·.data)) ∧
    ∀ q : Happening → Bool, (∀ r, q (.published r) = false) →
      s'.store.history.countP q = s.store.history.countP q := by
  have published : ∀ {r : Record Message} {q : Happening → Bool}, (∀ r, q (.published r) = false) →
      (Happening.published r :: s.store.history).countP q = s.store.history.countP q :=
    fun {r q} hq => by rw [List.countP_cons, hq r]; simp
  cases h with
  | task found moved => exact .inl ⟨_, _, _, _, rfl, found, moved, rfl⟩
  | requestPublish _ _ appended | relayPublish _ appended | schedulerPublish _ _ appended
  | duplicate _ appended =>
    rw [(ConsumerGroup.append_eq_some appended).1]
    exact .inr ⟨fun _ _ _ => rfl, fun q hq => published hq⟩
  | crash => cases quiet
  | loop stepped running =>
    refine .inr ⟨fun q hr _ => ?_, fun _ _ => rfl⟩
    rcases ConsumerGroup.loopStep_started stepped running with same | ⟨t, ht, tasks⟩
    · rw [same]
    · rw [tasks, List.countP_append]
      simp [ht, hr]
  | finish found _ ended finished =>
    refine .inr ⟨fun q _ hf => ?_, fun _ _ => rfl⟩
    obtain ⟨_, _, -, tasks, -⟩ := ConsumerGroup.finish_eq_some finished
    rw [tasks]
    exact countP_eraseIdx found (by rw [ended (of_decide_eq_true quiet), hf])
  | _ => exact .inr ⟨fun _ _ _ => rfl, fun _ _ => rfl⟩

namespace PostKind

variable {k : PostKind}

@[simp] theorem opened_deliverNext {event : Event} {n : Nat} {ps : List Endpoint} :
    k.opened (deliverNext event n ps) = false := by
  cases ps <;> simp [deliverNext, opened]

@[simp] theorem unrecorded_deliverNext {event : Event} {n : Nat} {ps : List Endpoint} :
    k.unrecorded (deliverNext event n ps) = false := by
  cases ps <;> simp [deliverNext, unrecorded]

theorem admits_goto {d : Delivery} {stage : Stage} : k.admits { d with stage } = k.admits d := rfl

theorem Known.mono {t t' : Tables} (grow : t.Evolves t') (h : k.Known t) : k.Known t' where
  issued := grow.issued _ h.issued
  row exist := by
    obtain ⟨a, ha, covered⟩ := h.row (grow.endpoints _ exist h.issued)
    refine ⟨a, grow.attempts a ha ?_, covered⟩
    rwa [(coversRow_iff.1 covered).2.1]

theorem Known.of_row {t : Tables} (v : t.Valid) {a : DeliveryAttempt} (ha : a ∈ t.attempts)
    (covered : k.coversRow a = true) : k.Known t where
  issued := by
    obtain ⟨q, hq, he⟩ := Tables.mem_endpointIds.1 (v.attempts_endpoint_fkey a ha)
    rw [← (coversRow_iff.1 covered).2.1, ← he]
    exact v.endpoints_issued q hq
  row _ := ⟨a, ha, covered⟩

/-- What a step of a call does to the POSTs of the kind: nothing, or it opens one, makes one, or
comes to the insert of its row, which writes the row or meets one of its number. -/
inductive Effect (k : PostKind) (st : Store) (c : Call) (b : TaskAction) (st' : Store) (c' : Call) :
    Prop where
  | nothing (opened : k.opened c' = k.opened c) (unrecorded : k.unrecorded c' = k.unrecorded c)
      (posts : st'.history.countP k.covers = st.history.countP k.covers)
  | opens {d : Delivery} (call : c = .delivering d) (select : b = .select)
      (admitted : k.admits d = true) (prior : st.db.hasSuccess d.event.id d.endpoint.id = false)
      (same : st'.db = st.db) (unrecorded : k.unrecorded c' = false)
      (posts : st'.history.countP k.covers = st.history.countP k.covers)
  | makes (opened : k.opened c = true) (unrecorded : k.unrecorded c = false)
      (closed : k.opened c' = false)
      (posts : st'.history.countP k.covers = st.history.countP k.covers + (k.unrecorded c').toNat)
  | records {d : Delivery} {result : HttpResult} (call : c = .delivering d) (record : b = .record)
      (admitted : k.admits d = true) (stage : d.stage = .recording result)
      (covered : k.status result.attemptStatus = true) (closed : k.opened c' = k.opened c)
      (unrecorded : k.unrecorded c' = false)
      (row : (∃ a ∈ st'.db.attempts, k.coversRow a = true) ∨
        (st'.db = st.db ∧ st.db.HasRow d.event.id d.endpoint.id d.attemptNumber))
      (posts : st'.history.countP k.covers = st.history.countP k.covers)

theorem opened_of_stage {d : Delivery} (h : d.stage ≠ .posting) :
    k.opened (.delivering d) = false := by
  simp [opened, h]

theorem unrecorded_of_stage {d : Delivery} (h : ∀ result, d.stage ≠ .recording result) :
    k.unrecorded (.delivering d) = false := by
  cases stage : d.stage with
  | recording result => exact absurd stage (h result)
  | _ => simp [unrecorded, stage]

/-- A step that starts and ends outside the window between a check and an insert. -/
theorem Effect.outside {st st' : Store} {d : Delivery} {c' : Call} {b : TaskAction}
    (posting : d.stage ≠ .posting) (recording : ∀ result, d.stage ≠ .recording result)
    (opened : k.opened c' = false) (unrecorded : k.unrecorded c' = false)
    (posts : st'.history.countP k.covers = st.history.countP k.covers) :
    k.Effect st (.delivering d) b st' c' :=
  .nothing (by rw [opened, opened_of_stage posting]) (by rw [unrecorded, unrecorded_of_stage recording])
    posts

theorem effect {st st' : Store} {r : Record Message} {c c' : Call} {b : TaskAction}
    (h : Moves cfg st r c b st' c') : k.Effect st c b st' c' := by
  have recorded : ∀ {d : Delivery} {result : HttpResult} {st' : Store},
      d.stage = .recording result →
      st'.history.countP k.covers = st.history.countP k.covers →
      ((∃ a ∈ st'.db.attempts, a = d.row result) ∨
        (st'.db = st.db ∧ st.db.HasRow d.event.id d.endpoint.id d.attemptNumber)) →
      k.Effect st (.delivering d) .record st'
        (if result.succeeded then d.next else d.goto (.failed result)) := by
    intro d result st' stage posts row
    have closed : k.opened (if result.succeeded then d.next else d.goto (.failed result)) = false := by
      split
      · exact opened_deliverNext
      · exact opened_of_stage (by simp)
    have done : k.unrecorded (if result.succeeded then d.next else d.goto (.failed result)) = false := by
      split
      · exact unrecorded_deliverNext
      · exact unrecorded_of_stage (by simp)
    have before : k.opened (.delivering d) = false := opened_of_stage (by simp [stage])
    by_cases here : k.admits d = true ∧ k.status result.attemptStatus = true
    · refine .records rfl rfl here.1 stage here.2 (closed.trans before.symm) done ?_ posts
      refine row.imp_left fun ⟨a, ha, same⟩ => ⟨a, ha, ?_⟩
      have covered : k.coversRow (d.row result) = (k.admits d && k.status result.attemptStatus) := rfl
      rw [same, covered, here.1, here.2, Bool.and_self]
    · refine .nothing (closed.trans before.symm) (done.trans ?_) posts
      rw [unrecorded, stage]
      exact (Bool.eq_false_iff.2 fun both => here (Bool.and_eq_true_iff.1 both)).symm
  cases h with
  | resolve =>
    refine .nothing ?_ ?_ rfl
    · unfold resolveTargets
      split
      · rfl
      · exact opened_deliverNext
    · unfold resolveTargets
      split
      · rfl
      · exact unrecorded_deliverNext
  | skip stage | schedule stage | notify stage | notifyFailed stage =>
    exact .outside (by simp [stage]) (by simp [stage]) opened_deliverNext unrecorded_deliverNext
      (by simp [Store.log, covers])
  | dlqConflict stage | insertDlq stage | cancel stage | cancelFailed stage =>
    exact .outside (by simp [stage]) (by simp [stage]) (opened_of_stage (by simp))
      (unrecorded_of_stage (by simp)) rfl
  | @pass d stage prior =>
    have after : k.unrecorded (d.goto .posting) = false := unrecorded_of_stage (by simp)
    by_cases here : k.admits d = true
    · exact .opens rfl rfl here prior rfl after rfl
    · have none : k.admits d = false := by simpa using here
      exact .outside (by simp [stage]) (by simp [stage]) (by simp [opened, Delivery.goto, admits_goto, none])
        after rfl
  | @post d result stage =>
    have closed : k.opened (d.goto (.recording result)) = false := opened_of_stage (by simp)
    have before : k.unrecorded (.delivering d) = false := unrecorded_of_stage (by simp [stage])
    have same : k.covers (.posted r (d.post result)) = k.unrecorded (d.goto (.recording result)) := rfl
    have posts : (Happening.posted r (d.post result) :: st.history).countP k.covers =
        st.history.countP k.covers + (k.unrecorded (d.goto (.recording result))).toNat := by
      rw [List.countP_cons, ← same]
      cases k.covers (.posted r (d.post result)) <;> rfl
    by_cases here : k.admits d = true
    · exact .makes (by simp [opened, stage, here]) before closed posts
    · have none : k.admits d = false := by simpa using here
      have after : k.unrecorded (d.goto (.recording result)) = false := by
        simp [unrecorded, Delivery.goto, admits_goto, none]
      rw [after] at posts
      exact .nothing (by rw [closed]; simp [opened, none]) (by rw [before, after]) posts
  | conflict stage taken => exact recorded stage rfl (.inr ⟨rfl, taken⟩)
  | @record d result db stage _ _ _ tables =>
    refine recorded stage (by simp [Store.log, covers]) (.inl ⟨d.row result, ?_, rfl⟩)
    rw [Store.log, tables]
    exact List.mem_append_right _ (List.mem_singleton_self _)

/-- The guard keeps the kind exclusive. -/
theorem Once.step (h : k.Once s) (hs : Transition cfg s a s') (quiet : a.crashFree = true)
    (guard : k.Guarded s a) : k.Once s' := by
  have known := fun h : k.Known s.store.db.toTables => h.mono hs.evolves
  obtain ⟨posted, exclusive, settled⟩ := h
  rcases hs.quiet_cases quiet with ⟨i, b, t, c, rfl, found, moved, tasks⟩ | ⟨calls, posts⟩
  · have opened : s'.group.tasks.countP (k.opened ·.data) + (k.opened t.data).toNat =
        s.group.tasks.countP (k.opened ·.data) + (k.opened c).toNat :=
      tasks ▸ countP_set_add (fun t => k.opened t.data) { t with data := c } found
    have unrecorded : s'.group.tasks.countP (k.unrecorded ·.data) + (k.unrecorded t.data).toNat =
        s.group.tasks.countP (k.unrecorded ·.data) + (k.unrecorded c).toNat :=
      tasks ▸ countP_set_add (fun t => k.unrecorded t.data) { t with data := c } found
    cases effect (k := k) moved with
    | nothing ho hu hn =>
      rw [ho] at opened
      rw [hu] at unrecorded
      exact ⟨by omega, by omega, settled.imp (fun _ => by omega) known⟩
    | @opens d call select admitted prior same hu hn =>
      subst select
      obtain ⟨free, unknown, room⟩ :=
        guard.select i d rfl (State.delivery_eq_some.2 ⟨t, found, call⟩) admitted prior
      have noneOpen : s.group.tasks.countP (k.opened ·.data) = 0 :=
        List.countP_eq_zero.2 fun t ht => by simp [(free t ht).1]
      have noneUnrecorded : s.group.tasks.countP (k.unrecorded ·.data) = 0 :=
        List.countP_eq_zero.2 fun t ht => by simp [(free t ht).2]
      have none : s.store.history.countP k.covers = 0 := by
        rcases room with exist | none
        · rcases settled with below | known
          · omega
          · obtain ⟨a, ha, covered⟩ := known.row exist
            simp [unknown a ha] at covered
        · exact none
      have atMost : (k.opened c).toNat ≤ 1 := Bool.toNat_le _
      rw [hu, Bool.toNat_false] at unrecorded
      exact ⟨by omega, by omega, .inl (by omega)⟩
    | makes ho hu closed hn =>
      rw [ho, closed, Bool.toNat_true, Bool.toNat_false] at opened
      rw [hu, Bool.toNat_false] at unrecorded
      have atMost : (k.unrecorded c).toNat ≤ 1 := Bool.toNat_le _
      exact ⟨by omega, by omega, .inl (by omega)⟩
    | @records d result call record admitted stage covered ho hu row hn =>
      subst record
      rw [ho] at opened
      rw [hu, Bool.toNat_false] at unrecorded
      refine ⟨by omega, by omega, .inr ?_⟩
      rcases row with ⟨a, ha, covers⟩ | ⟨same, taken⟩
      · exact .of_row s'.store.db.valid ha covers
      · obtain ⟨a, ha, covers⟩ := guard.record i d result rfl
          (State.delivery_eq_some.2 ⟨t, found, call⟩) admitted stage covered taken
        exact same ▸ .of_row s.store.db.valid ha covers
  · have opened := calls k.opened rfl rfl
    have unrecorded := calls k.unrecorded rfl rfl
    have same := posts k.covers fun _ => rfl
    exact ⟨by omega, by omega, settled.imp (fun _ => by omega) known⟩

theorem Once.initial : k.Once HookRelay.initial :=
  ⟨Nat.zero_le _, Nat.zero_le _, .inl (Nat.zero_le _)⟩

/-- In a crash-free run whose steps are guarded, at most one POST of the kind is made. -/
theorem made_at_most_once {as : List Action}
    (run : Lts.Run (State.step cfg) (fun s a => a.crashFree = true ∧ k.Guarded s a)
      HookRelay.initial as s) : s.store.history.countP k.covers ≤ 1 := by
  have once : k.Once s :=
    run.invariant (fun _ _ _ h guard hs => h.step (step_transition hs) guard.1 guard.2) .initial
  have := once.posted
  omega

end PostKind
end Step
end HookRelay
