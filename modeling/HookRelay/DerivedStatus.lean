import HookRelay.Lib.Sql
import HookRelay.System

/-!
# The derived status of an event

`get_event` groups the attempt rows and dead letters of the event by endpoint, counts the
endpoints that succeeded, that are exhausted and that are neither, and derives the status from the
three counts. Nothing but these rows tells it that an endpoint is being retried.
-/

namespace HookRelay

/-- A row of the `UNION ALL`: a dead letter has no status. -/
structure SourceRow where
  endpointId : UUID
  status : Option AttemptStatus
  fromDlq : Bool

/-- A row of `states`. -/
structure EndpointState where
  endpointId : UUID
  hasSuccess : Bool
  inDlq : Sql.Truth

namespace EndpointState

def succeeded (x : EndpointState) : Sql.Truth := some x.hasSuccess

def exhausted (x : EndpointState) : Sql.Truth := x.inDlq.and (Sql.Truth.not (some x.hasSuccess))

def retrying (x : EndpointState) : Sql.Truth :=
  (Sql.Truth.not (some x.hasSuccess)).and x.inDlq.not

end EndpointState

namespace Tables

/-- `src`: the rows of the event. -/
def sourceRows (t : Tables) (eventId : UUID) : List SourceRow :=
  (t.attempts.filter (·.eventId = eventId)).map (fun a => ⟨a.endpointId, some a.status, false⟩) ++
    (t.dlq.filter (·.eventId = eventId)).map fun d => ⟨d.endpointId, none, true⟩

/-- The aggregates of one endpoint's rows. -/
def endpointState (endpointId : UUID) (rows : List SourceRow) : EndpointState where
  endpointId := endpointId
  hasSuccess := (Sql.boolOr (rows.map fun r => r.status.map fun x => decide (x = .success))).getD false
  inDlq := Sql.boolOr (rows.map fun r => some r.fromDlq)

def endpointStates (t : Tables) (eventId : UUID) : List EndpointState :=
  (Sql.groupBy (·.endpointId) (t.sourceRows eventId)).map fun g => endpointState g.1 g.2

/-- The status `get_event` derives. -/
def derivedStatus (t : Tables) (eventId : UUID) : EventStatus :=
  let states := t.endpointStates eventId
  let succeeded := Sql.countWhen EndpointState.succeeded states
  let exhausted := Sql.countWhen EndpointState.exhausted states
  let retrying := Sql.countWhen EndpointState.retrying states
  if succeeded + exhausted + retrying = 0 then .pending
  else if succeeded = 0 ∧ retrying > 0 then .retrying
  else if succeeded > 0 ∧ exhausted = 0 ∧ retrying = 0 then .delivered
  else if succeeded > 0 ∧ retrying > 0 then .partiallyRetrying
  else if succeeded > 0 ∧ exhausted > 0 ∧ retrying = 0 then .partiallyDelivered
  else .dlq

/-- The query counts the endpoint as retrying. -/
def CountsRetrying (t : Tables) (eventId endpointId : UUID) : Prop :=
  ∃ x ∈ t.endpointStates eventId, x.endpointId = endpointId ∧ x.retrying = some true

/-- The pair has an attempt row. -/
def Tried (t : Tables) (eventId endpointId : UUID) : Prop :=
  ∃ a ∈ t.attempts, a.eventId = eventId ∧ a.endpointId = endpointId

instance (t : Tables) (e p : UUID) : Decidable (t.Tried e p) :=
  inferInstanceAs (Decidable (∃ a ∈ t.attempts, a.eventId = e ∧ a.endpointId = p))

end Tables

/-- `get_event`. -/
def State.getEvent (s : State) (id : UUID) : Option Event := do
  let event ← s.store.db.getEvent id
  some { event with status := s.store.db.derivedStatus id }

/-! ## What the query sees -/

section

variable {t : Tables} {e p : UUID}

theorem Tables.mem_sourceRows {r : SourceRow} : r ∈ t.sourceRows e ↔
    (∃ a ∈ t.attempts, a.eventId = e ∧ r = ⟨a.endpointId, some a.status, false⟩) ∨
      ∃ d ∈ t.dlq, d.eventId = e ∧ r = ⟨d.endpointId, none, true⟩ := by
  simp only [sourceRows, List.mem_append, List.mem_map, List.mem_filter, decide_eq_true_eq,
    and_assoc, eq_comm (a := r)]

theorem Tables.known_endpoint : (∃ r ∈ t.sourceRows e, r.endpointId = p) ↔
    t.Tried e p ∨ t.HasDlq e p := by
  simp only [mem_sourceRows]
  constructor
  · rintro ⟨_, ⟨a, ha, he, rfl⟩ | ⟨d, hd, he, rfl⟩, rfl⟩
    · exact .inl ⟨a, ha, he, rfl⟩
    · exact .inr ⟨d, hd, he, rfl⟩
  · rintro (⟨a, ha, he, rfl⟩ | ⟨d, hd, he, rfl⟩)
    · exact ⟨_, .inl ⟨a, ha, he, rfl⟩, rfl⟩
    · exact ⟨_, .inr ⟨d, hd, he, rfl⟩, rfl⟩

/-- The NULL status of a dead letter does not count against a success. -/
theorem Tables.endpointState_hasSuccess :
    (endpointState p ((t.sourceRows e).filter (·.endpointId = p))).hasSuccess = t.hasSuccess e p := by
  rw [Bool.eq_iff_iff, hasSuccess_iff, endpointState, Sql.coalesce_eq_true, Sql.boolOr_eq_true]
  simp only [List.mem_map, List.mem_filter, decide_eq_true_eq, mem_sourceRows]
  constructor
  · rintro ⟨_, ⟨⟨a, ha, he, rfl⟩ | ⟨d, hd, he, rfl⟩, rfl⟩, success⟩
    · exact ⟨a, ha, he, rfl, by simpa using success⟩
    · cases success
  · rintro ⟨a, ha, he, rfl, success⟩
    exact ⟨_, ⟨.inl ⟨a, ha, he, rfl⟩, rfl⟩, by simp [success]⟩

theorem Tables.endpointState_inDlq (known : t.Tried e p ∨ t.HasDlq e p) :
    (endpointState p ((t.sourceRows e).filter (·.endpointId = p))).inDlq =
      some (decide (t.HasDlq e p)) := by
  obtain ⟨r, hr, hp⟩ := known_endpoint.2 known
  have rows : ((t.sourceRows e).filter (·.endpointId = p)).map (·.fromDlq) ≠ [] := by
    rw [Ne, List.map_eq_nil_iff]
    exact List.ne_nil_of_mem (List.mem_filter.2 ⟨hr, decide_eq_true hp⟩)
  have values := Sql.boolOr_values rows
  rw [List.map_map] at values
  refine values.trans (congrArg some ?_)
  rw [Bool.eq_iff_iff, List.any_eq_true, decide_eq_true_eq]
  simp only [List.mem_map, List.mem_filter, decide_eq_true_eq, mem_sourceRows]
  constructor
  · rintro ⟨_, ⟨_, ⟨⟨a, ha, he, rfl⟩ | ⟨d, hd, he, rfl⟩, hp⟩, rfl⟩, dead⟩
    · cases dead
    · exact ⟨d, hd, he, hp⟩
  · rintro ⟨d, hd, he, hp⟩
    exact ⟨_, ⟨_, ⟨.inr ⟨d, hd, he, rfl⟩, hp⟩, rfl⟩, rfl⟩

/-- An endpoint is in `states` when the event has a row of it, with the aggregates of its rows. -/
theorem Tables.mem_endpointStates {x : EndpointState} : x ∈ t.endpointStates e ↔
    (t.Tried e x.endpointId ∨ t.HasDlq e x.endpointId) ∧
      x.hasSuccess = t.hasSuccess e x.endpointId ∧
      x.inDlq = some (decide (t.HasDlq e x.endpointId)) := by
  constructor
  · intro hx
    obtain ⟨⟨p, g⟩, hg, rfl⟩ := List.mem_map.1 hx
    obtain ⟨here, rfl⟩ := Sql.mem_groupBy.1 hg
    have here := known_endpoint.1 here
    exact ⟨here, endpointState_hasSuccess, endpointState_inDlq here⟩
  · rintro ⟨here, hs, hd⟩
    refine List.mem_map.2 ⟨(x.endpointId, _), Sql.mem_groupBy.2 ⟨known_endpoint.2 here, rfl⟩, ?_⟩
    obtain ⟨p, hasSuccess, inDlq⟩ := x
    have hs : hasSuccess = t.hasSuccess e p := hs
    have hd : inDlq = some (decide (t.HasDlq e p)) := hd
    rw [hs, hd, ← endpointState_hasSuccess, ← endpointState_inDlq here]
    rfl

/-- The query takes an endpoint for retrying when it has an attempt, no success and no dead
letter. -/
theorem Tables.countsRetrying_iff : t.CountsRetrying e p ↔
    t.Tried e p ∧ t.hasSuccess e p = false ∧ ¬ t.HasDlq e p := by
  constructor
  · rintro ⟨x, hx, rfl, retrying⟩
    obtain ⟨known, hs, hd⟩ := mem_endpointStates.1 hx
    rw [EndpointState.retrying, hs, hd] at retrying
    simp only [Sql.Truth.not_some, Sql.Truth.and_some, Option.some.injEq, Bool.and_eq_true,
      Bool.not_eq_true', decide_eq_false_iff_not] at retrying
    exact ⟨known.resolve_right retrying.2, retrying⟩
  · rintro ⟨tried, unsuccessful, alive⟩
    refine ⟨⟨p, t.hasSuccess e p, some (decide (t.HasDlq e p))⟩,
      mem_endpointStates.2 ⟨.inl tried, rfl, rfl⟩, rfl, ?_⟩
    simp [EndpointState.retrying, unsuccessful, alive]

/-- A status that reports a retry comes from an endpoint counted as retrying. -/
theorem Tables.countsRetrying_of_status
    (h : t.derivedStatus e = .retrying ∨ t.derivedStatus e = .partiallyRetrying) :
    ∃ p, t.CountsRetrying e p := by
  have counted : 0 < Sql.countWhen EndpointState.retrying (t.endpointStates e) := by
    by_contra none
    have zero := Nat.eq_zero_of_not_pos none
    simp only [derivedStatus, zero, Nat.lt_irrefl, gt_iff_lt, and_false, if_false] at h
    split at h
    · simp at h
    · split at h
      · simp at h
      · split at h <;> simp at h
  obtain ⟨x, hx, retrying⟩ := Sql.countWhen_pos.1 counted
  exact ⟨x.endpointId, x, hx, rfl, retrying⟩

end
end HookRelay
