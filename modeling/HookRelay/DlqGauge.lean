import HookRelay.System

/-!
# The gauge of the dead letter queue

Every process has its own `dlq_entries_total` gauge, and a dashboard adds them up. The five operations
that insert or delete rows of `dlq_entries`, each as one call from its first statement to its end, with
the adjustment of the gauge of the process it runs in.
-/

namespace HookRelay

/-- What an operation's awaits yield: whether its first `SELECT` succeeds, its statements up to the
commit, its publish and, for a delivery, the cancel of the retry. -/
structure Awaits where
  read : Bool := true
  commit : Bool := true
  publish : Bool := true
  cancel : Bool := true

/-- `move_to_dlq` has the identifier its row gets. -/
inductive DlqOperation where
  | moveToDlq (id eventId endpointId : UUID) (reason : String) (attemptNumber : Nat) (awaits : Awaits)
  | replayDlqEntry (dlqId : UUID) (awaits : Awaits)
  | deleteDlqEntry (dlqId : UUID) (awaits : Awaits)
  | retryEvent (eventId : UUID) (awaits : Awaits)
  | deleteEndpoint (endpointId : UUID) (awaits : Awaits)

/-- One worker and one API process over their stores, with the gauge of each. -/
structure Metered where
  db : Database
  redis : RedisRetryScheduler := {}
  pending : List Message := []
  dlqTopic : List (UUID × UUID) := []
  workerGauge : Int
  apiGauge : Int

namespace Metered

/-- The start of the worker: `dlq_entries_total.set(dlq_count)`. -/
def synchronise (s : Metered) : Metered := { s with workerGauge := s.db.dlq.length }

/-- `move_to_dlq`. A commit that fails raises; a failed cancel or publish is only logged. -/
def moveToDlq (s : Metered) (id eventId endpointId : UUID) (reason : String) (attemptNumber : Nat)
    (awaits : Awaits) : Metered :=
  let entry : DLQEntry := ⟨id, eventId, endpointId, reason⟩
  let inserted := !s.db.conflictsDlq entry
  match s.db.insertDlq entry with
  | some db =>
    if awaits.commit then
      { s with
        db
        redis := if awaits.cancel then s.redis.cancel ⟨eventId, endpointId, attemptNumber⟩ else s.redis
        dlqTopic := if awaits.publish then s.dlqTopic ++ [(eventId, endpointId)] else s.dlqTopic
        workerGauge := if inserted then s.workerGauge + 1 else s.workerGauge }
    else s
  | none => s

/-- `replay_dlq_entry`. -/
def replayDlqEntry (s : Metered) (dlqId : UUID) (awaits : Awaits) : Metered :=
  match s.db.getDlq dlqId with
  | some entry =>
    if awaits.read && awaits.publish then
      let s := { s with pending := s.pending ++ [.fanOut entry.eventId] }
      if awaits.commit then
        { s with
          db := (s.db.setStatus entry.eventId .pending).deleteDlq [dlqId]
          apiGauge := s.apiGauge - 1 }
      else s
    else s
  | none => s

/-- `delete_dlq_entry`. -/
def deleteDlqEntry (s : Metered) (dlqId : UUID) (awaits : Awaits) : Metered :=
  match s.db.getDlq dlqId with
  | some _ =>
    if awaits.read && awaits.commit then
      { s with db := s.db.deleteDlq [dlqId], apiGauge := s.apiGauge - 1 }
    else s
  | none => s

/-- The rows `DELETE FROM dlq_entries WHERE event_id = …` deletes. -/
def eventRows (s : Metered) (eventId : UUID) : List UUID :=
  (s.db.dlq.filter (·.eventId = eventId)).map (·.id)

/-- `retry_event`. It publishes before it deletes. -/
def retryEvent (s : Metered) (eventId : UUID) (awaits : Awaits) : Metered :=
  match s.db.getEvent eventId with
  | some event =>
    if awaits.read && awaits.publish then
      let s := { s with pending := s.pending ++ [.fanOut event.id] }
      if awaits.commit then
        { s with db := (s.db.deleteDlq (s.eventRows eventId)).setStatus eventId .pending }
      else s
    else s
  | none => s

/-- `delete_endpoint`. -/
def deleteEndpoint (s : Metered) (endpointId : UUID) (awaits : Awaits) : Metered :=
  match s.db.getEndpoint endpointId with
  | some _ => if awaits.read && awaits.commit then { s with db := s.db.deleteEndpoint endpointId } else s
  | none => s

/-- A completed operation. The identifier of a new row was never drawn before. -/
def step (s : Metered) : DlqOperation → Option Metered
  | .moveToDlq id eventId endpointId reason attemptNumber awaits =>
    if id ∈ s.db.issued then none
    else some (s.moveToDlq id eventId endpointId reason attemptNumber awaits)
  | .replayDlqEntry dlqId awaits => some (s.replayDlqEntry dlqId awaits)
  | .deleteDlqEntry dlqId awaits => some (s.deleteDlqEntry dlqId awaits)
  | .retryEvent eventId awaits => some (s.retryEvent eventId awaits)
  | .deleteEndpoint endpointId awaits => some (s.deleteEndpoint endpointId awaits)

/-- The gauges sum to the number of rows. -/
def Agree (s : Metered) : Prop := s.workerGauge + s.apiGauge = s.db.dlq.length

instance (s : Metered) : Decidable s.Agree := inferInstanceAs (Decidable (_ = _))

/-- How far the gauges are above the number of rows. -/
def drift (s : Metered) : Int := s.workerGauge + s.apiGauge - s.db.dlq.length

/-- The rows the operation deletes without a word to the gauge: all those of the event that
`retry_event` commits for, or of the endpoint that `delete_endpoint` commits for. -/
def uncounted (s : Metered) : DlqOperation → Nat
  | .retryEvent eventId awaits =>
    if awaits.read && awaits.publish && awaits.commit then s.db.dlq.countP (·.eventId = eventId) else 0
  | .deleteEndpoint endpointId awaits =>
    if awaits.read && awaits.commit then s.db.dlq.countP (·.endpointId = endpointId) else 0
  | _ => 0

end Metered

/-! ## Rows that go -/

/-- The rows left by a filter, and those it drops. -/
theorem length_filter_add {α : Type*} (l : List α) (p : α → Prop) [DecidablePred p] :
    (l.filter fun x => ¬ p x).length + l.countP (p ·) = l.length := by
  rw [← List.countP_eq_length_filter, List.length_eq_countP_add_countP (p ·), Nat.add_comm]
  simp only [decide_not, decide_eq_true_eq]

/-- No row refers to what is not there. -/
theorem countP_missing {α : Type*} {l : List α} {f : α → UUID} {ids : List UUID} {id : UUID}
    (fkey : ∀ x ∈ l, f x ∈ ids) (missing : id ∉ ids) : l.countP (f · = id) = 0 := by
  refine List.countP_eq_zero.2 fun x hx same => missing ?_
  rw [← of_decide_eq_true same]
  exact fkey x hx

section

variable {t : Tables} {s s' : Metered}

/-- A primary key names one row. -/
theorem Tables.Valid.countP_dlq_id (v : t.Valid) {d : DLQEntry} (there : d ∈ t.dlq) :
    t.dlq.countP (·.id ∈ [d.id]) = 1 := by
  have once := List.count_eq_one_of_mem v.dlq_pkey (List.mem_map_of_mem there)
  rw [List.count, List.countP_map] at once
  rw [← once]
  refine List.countP_congr fun x _ => ?_
  simp

/-- The identifiers of an event's dead letters belong to no other dead letter. -/
theorem Tables.Valid.deleteDlq_event (v : t.Valid) (e : UUID) :
    (t.deleteDlq ((t.dlq.filter (·.eventId = e)).map (·.id))).dlq = t.dlq.filter fun d => ¬ d.eventId = e := by
  refine List.filter_congr fun d hd => ?_
  rw [decide_eq_decide]
  constructor
  · intro out same
    exact out (List.mem_map.2 ⟨d, List.mem_filter.2 ⟨hd, decide_eq_true same⟩, rfl⟩)
  · rintro other mem
    obtain ⟨x, hx, same⟩ := List.mem_map.1 mem
    obtain ⟨hx, event⟩ := List.mem_filter.1 hx
    obtain rfl := Tables.eq_of_nodup_map v.dlq_pkey hx hd same
    exact other (of_decide_eq_true event)

/-! ## One operation -/

namespace Metered

theorem drift_moveToDlq {id e p : UUID} {reason : String} {n : Nat} {awaits : Awaits} :
    (s.moveToDlq id e p reason n awaits).drift = s.drift := by
  cases inserted : s.db.insertDlq ⟨id, e, p, reason⟩ with
  | none => simp only [moveToDlq, inserted]
  | some db =>
    cases committed : awaits.commit with
    | false => simp [moveToDlq, inserted, committed]
    | true =>
      have tables := Tables.insertDlq_cases (Database.exec_eq_some.1 inserted)
      obtain ⟨taken, same⟩ | ⟨free, -, -, -, added⟩ := tables
      · have conflict := Tables.conflictsDlq_iff (d := ⟨id, e, p, reason⟩).2 taken
        simp [moveToDlq, inserted, committed, drift, conflict, same]
      · have new : s.db.conflictsDlq ⟨id, e, p, reason⟩ = false :=
          Bool.eq_false_iff.2 fun h => free (Tables.conflictsDlq_iff.1 h)
        simp [moveToDlq, inserted, committed, drift, new, added]
        omega

/-- The entry that a replay or a deletion takes away is one row. -/
theorem length_deleteDlq {dlqId : UUID} {entry : DLQEntry} (found : s.db.getDlq dlqId = some entry) :
    (s.db.deleteDlq [dlqId]).dlq.length + 1 = s.db.dlq.length := by
  obtain ⟨there, rfl⟩ := Tables.getDlq_some found
  have one := s.db.valid.countP_dlq_id there
  have split := length_filter_add s.db.dlq (·.id ∈ [entry.id])
  rw [one] at split
  exact split

theorem drift_replayDlqEntry {dlqId : UUID} {awaits : Awaits} :
    (s.replayDlqEntry dlqId awaits).drift = s.drift := by
  cases found : s.db.getDlq dlqId with
  | none => simp only [replayDlqEntry, found]
  | some entry =>
    have one := length_deleteDlq found
    unfold replayDlqEntry
    rw [found]
    split_ifs
    · have rows : ((s.db.setStatus entry.eventId .pending).deleteDlq [dlqId]).dlq =
          (s.db.deleteDlq [dlqId]).dlq := rfl
      simp only [drift, rows]
      omega
    · rfl
    · rfl

theorem drift_deleteDlqEntry {dlqId : UUID} {awaits : Awaits} :
    (s.deleteDlqEntry dlqId awaits).drift = s.drift := by
  cases found : s.db.getDlq dlqId with
  | none => simp only [deleteDlqEntry, found]
  | some entry =>
    have one := length_deleteDlq found
    unfold deleteDlqEntry
    rw [found]
    split_ifs
    · simp only [drift]
      omega
    · rfl

theorem drift_retryEvent {eventId : UUID} {awaits : Awaits} :
    (s.retryEvent eventId awaits).drift = s.drift + s.uncounted (.retryEvent eventId awaits) := by
  have split := length_filter_add s.db.dlq (·.eventId = eventId)
  cases found : s.db.getEvent eventId with
  | none =>
    have rows : s.db.dlq.countP (·.eventId = eventId) = 0 := by
      refine countP_missing s.db.valid.dlq_event_fkey fun event => ?_
      obtain ⟨e, there⟩ := Tables.getEvent_isSome event
      cases found.symm.trans there
    simp [retryEvent, found, uncounted, rows]
  | some event =>
    cases published : (awaits.read && awaits.publish) with
    | false => simp [retryEvent, found, uncounted, published]
    | true =>
      cases committed : awaits.commit with
      | false =>
        simp only [retryEvent, found, uncounted, published, committed, if_true, Bool.and_false]
        simp [drift]
      | true =>
        have rows : ((s.db.deleteDlq (s.eventRows eventId)).setStatus eventId .pending).dlq =
            s.db.dlq.filter fun d => ¬ d.eventId = eventId := s.db.valid.deleteDlq_event eventId
        simp only [retryEvent, found, uncounted, published, committed, if_true, Bool.and_self, drift]
        change _ - (((s.db.deleteDlq (s.eventRows eventId)).setStatus eventId .pending).dlq.length : Int) = _
        rw [rows]
        omega

theorem drift_deleteEndpoint {endpointId : UUID} {awaits : Awaits} :
    (s.deleteEndpoint endpointId awaits).drift =
      s.drift + s.uncounted (.deleteEndpoint endpointId awaits) := by
  have split := length_filter_add s.db.dlq (·.endpointId = endpointId)
  cases found : s.db.getEndpoint endpointId with
  | none =>
    have rows : s.db.dlq.countP (·.endpointId = endpointId) = 0 := by
      refine countP_missing s.db.valid.dlq_endpoint_fkey fun endpoint => ?_
      obtain ⟨p, there⟩ := Tables.getEndpoint_isSome endpoint
      cases found.symm.trans there
    simp [deleteEndpoint, found, uncounted, rows]
  | some p =>
    cases committed : (awaits.read && awaits.commit) with
    | false => simp [deleteEndpoint, found, uncounted, committed]
    | true =>
      have rows : (s.db.deleteEndpoint endpointId).dlq =
          s.db.dlq.filter fun d => ¬ d.endpointId = endpointId := by
        refine List.filter_congr fun d _ => ?_
        simp
      simp only [deleteEndpoint, found, uncounted, committed, if_true, drift]
      rw [rows]
      omega

/-- An operation moves the gauges away from the rows by those it deletes without counting them. -/
theorem drift_step {op : DlqOperation} (hs : s.step op = some s') :
    s'.drift = s.drift + s.uncounted op := by
  cases op with
  | moveToDlq id e p reason n awaits =>
    obtain ⟨-, rfl⟩ := Option.ite_none_left_eq_some.1 hs |>.imp_right Option.some.inj
    simp [drift_moveToDlq, uncounted]
  | replayDlqEntry dlqId awaits =>
    obtain rfl := Option.some.inj hs
    simp [drift_replayDlqEntry, uncounted]
  | deleteDlqEntry dlqId awaits =>
    obtain rfl := Option.some.inj hs
    simp [drift_deleteDlqEntry, uncounted]
  | retryEvent eventId awaits =>
    obtain rfl := Option.some.inj hs
    exact drift_retryEvent
  | deleteEndpoint endpointId awaits =>
    obtain rfl := Option.some.inj hs
    exact drift_deleteEndpoint

theorem drift_eq_zero : s.drift = 0 ↔ s.Agree := Int.sub_eq_zero

/-- The start-up of the worker makes them agree when the API's gauge is at zero. -/
theorem agree_synchronise (fresh : s.apiGauge = 0) : s.synchronise.Agree := by
  simp [Agree, synchronise, fresh]

/-- Gauges that agree with the table do so after every operation, if and only if no `retry_event` and no
`delete_endpoint` deletes a row. -/
theorem gauges_agree_iff {ops : List DlqOperation} (run : Lts.Run step Lts.Any s ops s')
    (start : s.Agree) :
    (∀ before t, before <+: ops → Lts.Run step Lts.Any s before t → t.Agree) ↔
      Lts.Run step (fun t op => t.uncounted op = 0) s ops s' := by
  simp only [← drift_eq_zero]
  exact run.drift_iff (fun _ _ _ => drift_step) (drift_eq_zero.2 start)

/-- An endpoint and an event without dead letters, and two gauges at zero. -/
def sample : Option Metered := do
  let db ← Database.empty.insertEndpoint (sampleEndpoint.endpoint (.ofNat 1))
  let db ← db.insertEvent (sampleEvent.event (.ofNat 2)) (.ofNat 3)
  some { db, redis := initial.store.redis, workerGauge := 0, apiGauge := 0 }

/-- The event is dead-lettered twice, and its one row is replayed. -/
def sampleReplay : List DlqOperation :=
  [.moveToDlq (.ofNat 4) (.ofNat 2) (.ofNat 1) "" 0 {}, .moveToDlq (.ofNat 5) (.ofNat 2) (.ofNat 1) "" 1 {},
    .replayDlqEntry (.ofNat 4) { publish := false }, .replayDlqEntry (.ofNat 4) {},
    .deleteDlqEntry (.ofNat 4) {}]

theorem gauges_agree_replayed : ∃ s : Metered, s.Agree ∧
    ∀ before t, before <+: sampleReplay → Lts.Run step Lts.Any s before t → t.Agree := by
  have checked : sample.any (fun s => decide s.Agree &&
      (Lts.check step (fun (t : Metered) op => t.uncounted op = 0) s sampleReplay).isSome) = true := by decide +kernel
  rw [Option.any_eq_true] at checked
  obtain ⟨s, -, checked⟩ := checked
  obtain ⟨start, run⟩ := Bool.and_eq_true_iff.1 checked
  have start := of_decide_eq_true start
  obtain ⟨s', run⟩ := Option.isSome_iff_exists.1 run
  have run := (Lts.Run.of_check run).mono (D := fun (t : Metered) op => t.uncounted op = 0) fun _ _ h =>
    of_decide_eq_true h
  exact ⟨s, start, (gauges_agree_iff run.any start).2 run⟩

/-- The event is dead-lettered and retried by hand: the row is gone, and the worker still counts it. -/
theorem gauges_drift_on_retry : ∃ s s' : Metered, s.Agree ∧
    Lts.Run step Lts.Any s
      [.moveToDlq (.ofNat 4) (.ofNat 2) (.ofNat 1) "" 0 {}, .retryEvent (.ofNat 2) {}] s' ∧
    ¬ s'.Agree := by
  have checked : sample.any (fun s => decide s.Agree &&
      (Lts.check step (fun _ _ => true) s
        [.moveToDlq (.ofNat 4) (.ofNat 2) (.ofNat 1) "" 0 {}, .retryEvent (.ofNat 2) {}]).any fun t =>
          decide ¬ t.Agree) = true := by decide +kernel
  rw [Option.any_eq_true] at checked
  obtain ⟨s, -, checked⟩ := checked
  obtain ⟨start, run⟩ := Bool.and_eq_true_iff.1 checked
  obtain ⟨s', run, apart⟩ := Lts.Run.of_check_any run
  exact ⟨s, s', of_decide_eq_true start, run.any, of_decide_eq_true apart⟩

end Metered
end
end HookRelay
